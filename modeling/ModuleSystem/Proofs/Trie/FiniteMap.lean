import ModuleSystem.Proofs.Trie.Traversal
import ModuleSystem.Proofs.Trie.Updates
import ModuleSystem.Trie.Key

/-! A trie answers as a list that holds one stored pair for each class of equal keys. `Agrees`
compares all that can be asked of a trie with such a list, and the outcomes of updates as well;
`versions_agree` shows it of every version that a sequence of updates goes through. -/

namespace ModuleSystem.Trie

variable {κ ν : Type}

/-- The updates of a map. -/
inductive Update (κ ν : Type) where
  | insert (key : κ) (value : ν)
  | remove (key : κ)

/-- A finite map as the list of its stored pairs, one for each class of equal keys. -/
abbrev PairMap (κ ν : Type) := List (κ × ν)

section
variable [BEq κ]

namespace PairMap

def stored? (m : PairMap κ ν) (key : κ) : Option (κ × ν) := m.find? (·.1 == key)

def get? (m : PairMap κ ν) (key : κ) : Option ν := (m.stored? key).map (·.2)

/-- An equal value keeps the stored pair, another one replaces it, and an absent key is added. -/
def insert [BEq ν] (m : PairMap κ ν) (key : κ) (value : ν) : PairMap κ ν :=
  match m.stored? key with
  | some stored =>
    if stored.2 == value then m else m.map fun e => if e.1 == key then (key, value) else e
  | none => m ++ [(key, value)]

def remove (m : PairMap κ ν) (key : κ) : PairMap κ ν := m.filter fun e => !(e.1 == key)

def apply [BEq ν] (m : PairMap κ ν) : Update κ ν → PairMap κ ν
  | .insert key value => m.insert key value
  | .remove key => m.remove key

end PairMap

/-- The outcomes of updates, without the nodes that they make. -/
inductive OutcomeKind where
  | unchanged
  | replaced
  | added
  | notFound
  | removed
  deriving DecidableEq

def Inserted.kind {α : Type} : Inserted α → OutcomeKind
  | .unchanged => .unchanged
  | .replaced _ => .replaced
  | .added _ => .added

variable [BEq ν]

def PairMap.outcome (m : PairMap κ ν) : Update κ ν → OutcomeKind
  | .insert key value =>
    match m.stored? key with
    | some stored => if stored.2 == value then .unchanged else .replaced
    | none => .added
  | .remove key => if (m.stored? key).isSome then .removed else .notFound

variable [Hashable κ]

def apply (t : Trie κ ν) : Update κ ν → Trie κ ν
  | .insert key value => t.insert key value
  | .remove key => t.remove key

def outcome (t : Trie κ ν) : Update κ ν → OutcomeKind
  | .insert key value => (t.root.insert 0 (hash key) key value).kind
  | .remove key => if (t.root.remove 0 (hash key) key).isSome then .removed else .notFound

/-- A trie gives the same answers as a list of pairs. -/
structure Agrees (t : Trie κ ν) (m : PairMap κ ν) : Prop where
  get : ∀ key, t.get? key = m.get? key
  contains : ∀ key, t.contains key = (m.stored? key).isSome
  size : t.size = m.length
  isEmpty : t.isEmpty = m.isEmpty
  traversal : (Cursor.start t).drain.1.Perm m
  onePerClass : DistinctKeys m
  outcome : ∀ u, t.outcome u = m.outcome u

end

section
variable [BEq κ] [EquivBEq κ]

theorem DistinctKeys.find?_eq_some_iff {l : List (κ × ν)} (h : DistinctKeys l) {key : κ}
    {e : κ × ν} : l.find? (·.1 == key) = some e ↔ e ∈ l ∧ (e.1 == key) = true := by
  constructor
  · intro found
    have same := List.find?_some (p := fun e : κ × ν => e.1 == key) found
    exact ⟨List.mem_of_find?_eq_some found, same⟩
  · rintro ⟨he, same⟩
    cases found : l.find? (·.1 == key) with
    | none => simp [find?_eq_none_iff_absent.mp found e he] at same
    | some other =>
      have same' := List.find?_some (p := fun e : κ × ν => e.1 == key) found
      have : Std.Symm fun a b : κ × ν => (a.1 == b.1) = false :=
        ⟨fun a b hab => by rwa [BEq.comm] at hab⟩
      by_contra ne
      have apart := h.forall he
        (List.mem_of_find?_eq_some found) fun eq => ne (by rw [eq])
      rw [BEq.congr_left same, BEq.comm, same'] at apart
      cases apart

theorem stored?_eq_of_perm {l m : List (κ × ν)} (p : l.Perm m) (h : DistinctKeys l) (key : κ) :
    PairMap.stored? m key = l.find? (·.1 == key) := by
  apply Option.ext
  intro e
  rw [PairMap.stored?, (h.perm p.symm).find?_eq_some_iff, h.find?_eq_some_iff, p.mem_iff]

/-- Around a stored pair, all other keys differ from its key. -/
theorem DistinctKeys.absent_around {l r : List (κ × ν)} {stored : κ × ν} {key : κ}
    (h : DistinctKeys (l ++ stored :: r)) (same : (stored.1 == key) = true) :
    Absent key l ∧ Absent key r := by
  rw [DistinctKeys, List.pairwise_append, List.pairwise_cons] at h
  obtain ⟨_, ⟨later, _⟩, earlier⟩ := h
  constructor
  · intro e he
    rw [← BEq.congr_right same]
    exact earlier e he stored List.mem_cons_self
  · intro e he
    rw [BEq.comm, ← BEq.congr_left same]
    exact later e he

theorem map_replace {key : κ} {value : ν} {l r : List (κ × ν)} {stored : κ × ν}
    (h : DistinctKeys (l ++ stored :: r)) (same : (stored.1 == key) = true) :
    (l ++ stored :: r).map (fun e => if e.1 == key then (key, value) else e) =
      l ++ (key, value) :: r := by
  obtain ⟨hl, hr⟩ := h.absent_around same
  have fixed (m : List (κ × ν)) (hm : Absent key m) :
      m.map (fun e => if e.1 == key then (key, value) else e) = m := by
    conv => rhs; rw [← List.map_id m]
    apply List.map_congr_left
    intro e he
    simp [hm e he]
  simp [fixed l hl, fixed r hr, same]

theorem filter_remove {key : κ} {l r : List (κ × ν)} {stored : κ × ν}
    (h : DistinctKeys (l ++ stored :: r)) (same : (stored.1 == key) = true) :
    (l ++ stored :: r).filter (fun e => !(e.1 == key)) = l ++ r := by
  obtain ⟨hl, hr⟩ := h.absent_around same
  have fixed (m : List (κ × ν)) (hm : Absent key m) : m.filter (fun e => !(e.1 == key)) = m := by
    apply List.filter_eq_self.mpr
    intro e he
    simp [hm e he]
  simp [fixed l hl, fixed r hr, same]

end

section
variable [BEq κ] [Hashable κ]

/-- What updates keep: the root is empty or well-formed, and the cached size is right. -/
structure Sound (t : Trie κ ν) : Prop where
  root : t.root = .empty ∨ WellFormed [] t.root
  size : t.size = t.toList.length

theorem sound_empty : Sound (.empty : Trie κ ν) := ⟨.inl rfl, rfl⟩

variable [LawfulHashable κ]

theorem Sound.distinct {t : Trie κ ν} (h : Sound t) : DistinctKeys t.toList := by
  rcases h.root with empty | wf
  · rw [Trie.toList, empty, Node.toList]
    exact .nil
  · exact wf.distinct

theorem Sound.get?_eq {t : Trie κ ν} (h : Sound t) (key : κ) :
    t.get? key = valueOf key t.toList := by
  rcases h.root with empty | wf
  · rw [Trie.get?, Trie.toList, empty, Node.get?, Node.toList]
    rfl
  · exact get?_spec wf key

theorem Sound.remove_root {t : Trie κ ν} (h : Sound t) (key : κ) :
    RemovesFrom [] t.root key (t.root.remove 0 (hash key) key) := by
  rcases h.root with empty | wf
  · rw [empty, Node.remove]
    refine ⟨by simp, .absent ?_⟩
    rw [Node.toList]
    exact absent_nil key
  · exact remove_spec wf key

theorem Sound.insert_root [EquivBEq κ] [BEq ν] {t : Trie κ ν} (h : Sound t) (key : κ) (value : ν) :
    let r := t.root.insert 0 (hash key) key value
    (∀ new, r.result? = some new → WellFormed [] new) ∧
      Inserts key value t.toList (r.map Node.toList) := by
  rcases h.root with empty | wf
  · rw [Trie.toList, empty, Node.insert]
    refine ⟨?_, ?_⟩
    · rintro new ⟨⟩
      exact .leaf rfl (follows_nil _)
    · have put : Inserts key value [] (.added [(key, value)]) := .added (absent_nil key) (.refl _)
      simpa [Node.toList, Inserted.map] using put
  · obtain ⟨shape, _, entries⟩ := insert_spec wf value (follows_nil (hash key))
    exact ⟨shape, entries⟩

/-- A trie whose entries are, in some order, the pairs of a list. -/
structure Represents (t : Trie κ ν) (m : PairMap κ ν) : Prop where
  sound : Sound t
  entries : t.toList.Perm m

omit [LawfulHashable κ] in
theorem represents_empty : Represents (.empty : Trie κ ν) [] :=
  ⟨sound_empty, by rw [Trie.toList, Trie.empty, Node.toList]⟩

variable [EquivBEq κ]

theorem Represents.stored?_eq {t : Trie κ ν} {m : PairMap κ ν} (h : Represents t m) (key : κ) :
    m.stored? key = t.toList.find? (·.1 == key) :=
  stored?_eq_of_perm h.entries h.sound.distinct key

theorem Represents.stored? {t : Trie κ ν} {m : PairMap κ ν} (h : Represents t m) {key : κ}
    {stored : κ × ν} (hs : stored ∈ t.toList) (same : (stored.1 == key) = true) :
    m.stored? key = some stored := by
  rw [h.stored?_eq, h.sound.distinct.find?_eq_some_iff]
  exact ⟨hs, same⟩

theorem Represents.remove [BEq ν] {t : Trie κ ν} {m : PairMap κ ν} (h : Represents t m) (key : κ) :
    Represents (t.remove key) (m.remove key) ∧
      t.outcome (.remove key) = m.outcome (.remove key) := by
  obtain ⟨shape, entries⟩ := h.sound.remove_root key
  rw [Trie.remove, Trie.outcome, PairMap.outcome, PairMap.remove]
  have kept := h.entries.filter fun e => !(e.1 == key)
  cases result : t.root.remove 0 (hash key) key with
  | none =>
    rw [result] at entries
    cases entries with
    | absent nowhere =>
      refine ⟨⟨h.sound, ?_⟩, ?_⟩
      · rwa [List.filter_eq_self.mpr fun e he => by simp [nowhere e he]] at kept
      · rw [h.stored?_eq, Trie.toList, find?_eq_none_iff_absent.mpr nowhere]
        rfl
  | some root =>
    rw [result] at entries shape
    obtain ⟨l, stored, r, split, same, rest⟩ := entries.split
    have size := h.sound.size
    rw [Trie.toList, split] at kept size
    have distinct := h.sound.distinct
    rw [Trie.toList, split] at distinct
    refine ⟨⟨⟨shape root rfl, ?_⟩, ?_⟩, ?_⟩
    · simp [Trie.toList, rest, size]
    · rw [filter_remove distinct same] at kept
      rwa [Trie.toList, rest]
    · have mem : stored ∈ t.toList := by simp [Trie.toList, split]
      rw [h.stored? mem same]
      rfl

theorem Represents.insert [BEq ν] {t : Trie κ ν} {m : PairMap κ ν} (h : Represents t m) (key : κ)
    (value : ν) :
    Represents (t.insert key value) (m.insert key value) ∧
      t.outcome (.insert key value) = m.outcome (.insert key value) := by
  obtain ⟨shape, entries⟩ := h.sound.insert_root key value
  have size := h.sound.size
  have distinct := h.sound.distinct
  have perm := h.entries
  rw [Trie.insert, Trie.outcome, PairMap.outcome, PairMap.insert]
  cases result : t.root.insert 0 (hash key) key value with
  | unchanged =>
    rw [result] at entries
    cases entries with
    | unchanged split same equal =>
      rw [h.stored? (by simp [split]) same]
      simp only [equal, ↓reduceIte]
      exact ⟨h, rfl⟩
  | replaced root =>
    rw [result] at entries shape
    obtain ⟨l, stored, r, split, same, other, now⟩ := entries.replaced_split
    have mem : stored ∈ t.toList := by simp [split]
    rw [h.stored? mem same]
    simp only [other, Bool.false_eq_true, ↓reduceIte]
    refine ⟨⟨⟨.inr (shape root rfl), ?_⟩, ?_⟩, rfl⟩
    · rw [split] at size
      simp [Trie.toList, now, size]
    · rw [split] at perm distinct
      have := perm.map fun e => if e.1 == key then (key, value) else e
      rw [map_replace distinct same] at this
      rwa [Trie.toList, now]
  | added root =>
    rw [result] at entries shape
    obtain ⟨nowhere, more⟩ := entries.added_split
    rw [h.stored?_eq, find?_eq_none_iff_absent.mpr nowhere]
    refine ⟨⟨⟨.inr (shape root rfl), ?_⟩, ?_⟩, rfl⟩
    · simp [Trie.toList, more.length_eq, size]
    · exact (more.trans (perm.cons (key, value))).trans (List.perm_append_singleton _ _).symm

variable [BEq ν]

theorem Represents.apply {t : Trie κ ν} {m : PairMap κ ν} (h : Represents t m) (u : Update κ ν) :
    Represents (t.apply u) (m.apply u) ∧ t.outcome u = m.outcome u := by
  cases u with
  | insert key value => exact h.insert key value
  | remove key => exact h.remove key

theorem Represents.agrees {t : Trie κ ν} {m : PairMap κ ν} (h : Represents t m) : Agrees t m where
  get key := by rw [h.sound.get?_eq, PairMap.get?, h.stored?_eq, valueOf]
  contains key := by rw [Trie.contains, h.sound.get?_eq, h.stored?_eq, valueOf, Option.isSome_map]
  size := by rw [h.sound.size, h.entries.length_eq]
  isEmpty := by
    rw [Trie.isEmpty, h.sound.size, h.entries.length_eq]
    cases m <;> rfl
  traversal := by
    rw [Cursor.drain_start]
    exact h.entries
  onePerClass := h.sound.distinct.perm h.entries.symm
  outcome u := (h.apply u).2

theorem represents_versions {t : Trie κ ν} {m : PairMap κ ν} (h : Represents t m)
    (updates : List (Update κ ν)) :
    List.Forall₂ Represents (updates.scanl Trie.apply t) (updates.scanl PairMap.apply m) := by
  induction updates generalizing t m with
  | nil => exact .cons h .nil
  | cons u updates ih =>
    rw [List.scanl_cons, List.scanl_cons]
    exact .cons h (ih (h.apply u).1)

/-- All versions of a trie, also those that later updates started from, answer as the lists of
pairs after the same updates. -/
theorem versions_agree (updates : List (Update κ ν)) :
    List.Forall₂ Agrees (updates.scanl Trie.apply .empty) (updates.scanl PairMap.apply []) :=
  (represents_versions represents_empty updates).imp fun _ _ => Represents.agrees

end

namespace Key

theorem beq_iff {a b : Key} : (a == b) = true ↔ match a, b with
    | .int a, .int b => a = b
    | .text a, .text b => a = b
    | .bucketed b i _, .bucketed c j _ => b = c ∧ i = j
    | _, _ => False := by
  cases a <;> cases b <;> simp [BEq.beq]

instance : EquivBEq Key where
  rfl {a} := by cases a <;> simp [beq_iff]
  symm {a b} h := by
    rw [beq_iff] at h ⊢
    cases a <;> cases b <;> simp_all
  trans {a b c} h h' := by
    rw [beq_iff] at h h' ⊢
    cases a <;> cases b <;> cases c <;> simp_all

instance : LawfulHashable Key where
  hash_eq a b h := by
    rw [beq_iff] at h
    cases a <;> cases b <;> simp_all [hash]

end Key

/-- Keys of one bucket share their full hash. A stored key gives way to an equal one only together
with its value. -/
theorem versions_agree_colliding :
    let updates : List (Update Key Nat) := [.insert (.bucketed 7 1 "a") 1,
      .insert (.bucketed 7 2 "b") 2, .insert (.bucketed 7 1 "c") 1, .insert (.bucketed 7 1 "d") 3,
      .insert (.int 5) 4, .remove (.bucketed 7 2 ""), .remove (.text "absent")]
    EquivBEq Key ∧ LawfulHashable Key ∧
      List.Forall₂ Agrees (updates.scanl Trie.apply .empty) (updates.scanl PairMap.apply []) :=
  ⟨inferInstance, inferInstance, versions_agree _⟩

end ModuleSystem.Trie
