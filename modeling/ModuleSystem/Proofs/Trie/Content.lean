import ModuleSystem.Proofs.Trie.Shape
import ModuleSystem.Trie.Set

/-! The comparison of two tries looks at their sizes, and in one of them for the entries of the
other. Since no key is stored twice, that is enough for both to hold the same. -/

namespace ModuleSystem.Trie

variable {κ ν : Type}

/-- What a hash of a map is made from, for any hash of its entries. -/
def hashInput (entryHash : κ × ν → UInt64) (t : Trie κ ν) : Nat × UInt64 :=
  (t.size, t.toList.foldl (fun sum entry => sum + entryHash entry) 0)

section
variable [BEq κ] [BEq ν]

/-- Equal keys with equal values. -/
def EqualEntry (a b : κ × ν) : Prop := (a.1 == b.1) = true ∧ (a.2 == b.2) = true

/-- The same entries, up to their order and the forms of keys and values. -/
def SameEntries (l l' : List (κ × ν)) : Prop := ∃ m, l'.Perm m ∧ List.Forall₂ EqualEntry l m

/-- A hash of entries that is consistent with the equality of keys and values. -/
def Respects (entryHash : κ × ν → UInt64) : Prop :=
  ∀ a b, EqualEntry a b → entryHash a = entryHash b

theorem respects_entryHash [Hashable κ] [Hashable ν] [LawfulHashable κ] [LawfulHashable ν] :
    Respects (entryHash : κ × ν → UInt64) := by
  intro a b equal
  rw [entryHash, entryHash, LawfulHashable.hash_eq _ _ equal.1, LawfulHashable.hash_eq _ _ equal.2]

theorem Respects.sum_eq {entryHash : κ × ν → UInt64} (h : Respects entryHash)
    {l l' : List (κ × ν)} (same : SameEntries l l') (start : UInt64) :
    l.foldl (fun sum entry => sum + entryHash entry) start =
      l'.foldl (fun sum entry => sum + entryHash entry) start := by
  obtain ⟨m, perm, pairs⟩ := same
  have swapped : ∀ x ∈ l', ∀ y ∈ l', ∀ sum : UInt64,
      sum + entryHash x + entryHash y = sum + entryHash y + entryHash x := by
    intro x _ y _ sum
    rw [UInt64.add_assoc, UInt64.add_comm (entryHash x), ← UInt64.add_assoc]
  rw [perm.foldl_eq' swapped]
  clear perm swapped
  induction pairs generalizing start with
  | nil => rfl
  | cons equal _ ih => rw [List.foldl_cons, List.foldl_cons, h _ _ equal, ih]

/-- The values stored for one key are equal where the entries are. -/
theorem valueOf_of_pairs [PartialEquivBEq κ] {l m : List (κ × ν)}
    (pairs : List.Forall₂ EqualEntry l m) (key : κ) :
    (valueOf key l).isSome = (valueOf key m).isSome ∧
      ∀ v w, valueOf key l = some v → valueOf key m = some w → (v == w) = true := by
  induction pairs with
  | nil =>
    refine ⟨rfl, fun v w found => ?_⟩
    cases found
  | @cons a b l m equal _ ih =>
    have keys : (a.1 == key) = (b.1 == key) := BEq.congr_left equal.1
    simp only [valueOf, List.find?_cons, keys] at ih ⊢
    cases b.1 == key with
    | false => exact ih
    | true =>
      refine ⟨rfl, fun v w found found' => ?_⟩
      cases found
      cases found'
      exact equal.2

end

section
variable [BEq κ] [Hashable κ] [BEq ν]

/-- The same keys, with equal values. -/
structure SameContent (t u : Trie κ ν) : Prop where
  keys : ∀ key, t.contains key = u.contains key
  values : ∀ key v w, t.get? key = some v → u.get? key = some w → (v == w) = true

/-- Equality with the shortcut for tries that share their root. -/
def equal (sharesRoot : Bool) (t u : Trie κ ν) : Bool := sharesRoot || t == u

theorem beq_iff {t u : Trie κ ν} :
    (t == u) = true ↔ t.size = u.size ∧
      ∀ e ∈ t.toList, ∃ w, u.get? e.1 = some w ∧ (w == e.2) = true := by
  have each : ∀ e : κ × ν, (u.get? e.1 == some e.2) = true ↔
      ∃ w, u.get? e.1 = some w ∧ (w == e.2) = true := by
    intro e
    cases u.get? e.1 with
    | none => simp
    | some w => simp
  change (t.size == u.size && t.toList.all fun e => u.get? e.1 == some e.2) = true ↔ _
  rw [Bool.and_eq_true, beq_iff_eq, List.all_eq_true]
  exact and_congr_right fun _ => forall₂_congr fun e _ => each e

variable [EquivBEq κ] [LawfulHashable κ] [EquivBEq ν] {t u : Trie κ ν}

omit [BEq ν] [EquivBEq ν] in
theorem Sound.find_entry (h : Sound u) {key : κ} {w : ν} (found : u.get? key = some w) :
    ∃ e ∈ u.toList, (e.1 == key) = true ∧ e.2 = w := by
  rw [h.get?_eq, valueOf, Option.map_eq_some_iff] at found
  obtain ⟨e, found, value⟩ := found
  obtain ⟨mem, same⟩ := h.distinct.find?_eq_some_iff.mp found
  exact ⟨e, mem, same, value⟩

/-- The comparison goes one way, the sizes bring the way back. -/
theorem Sound.sameEntries (h : Sound t) (h' : Sound u) (equal : (t == u) = true) :
    SameEntries t.toList u.toList := by
  obtain ⟨size, each⟩ := beq_iff.mp equal
  have partner : ∀ e ∈ t.toList, ∃ e' ∈ u.toList, EqualEntry e e' := by
    intro e he
    obtain ⟨w, found, value⟩ := each e he
    obtain ⟨e', he', same, rfl⟩ := h'.find_entry found
    exact ⟨e', he', BEq.symm same, BEq.symm value⟩
  obtain ⟨m, rest, perm, pairs⟩ := exists_matching (fun _ _ equal => equal.1) h.distinct partner
  have whole := perm.length_eq
  rw [List.length_append, ← pairs.length_eq, ← h.size, ← h'.size] at whole
  obtain rfl : rest = [] := List.eq_nil_of_length_eq_zero (by omega)
  rw [List.append_nil] at perm
  exact ⟨m, perm, pairs⟩

omit [EquivBEq ν] in
theorem Sound.sameContent (h : Sound t) (h' : Sound u) (same : SameEntries t.toList u.toList) :
    SameContent t u := by
  obtain ⟨m, perm, pairs⟩ := same
  have there : ∀ key, u.get? key = valueOf key m := by
    intro key
    have stored := stored?_eq_of_perm perm h'.distinct key
    rw [PairMap.stored?] at stored
    rw [h'.get?_eq, valueOf, valueOf, stored]
  constructor
  · intro key
    rw [contains, contains, h.get?_eq, there]
    exact (valueOf_of_pairs pairs key).1
  · intro key v w found found'
    rw [h.get?_eq] at found
    rw [there] at found'
    exact (valueOf_of_pairs pairs key).2 v w found found'

theorem Sound.beq_iff_sameContent (h : Sound t) (h' : Sound u) :
    (t == u) = true ↔ SameContent t u := by
  constructor
  · intro equal
    exact h.sameContent h' (h.sameEntries h' equal)
  · intro same
    have covered := h.covered h' fun key mem => by rw [← same.keys key, mem]
    have covered' := h'.covered h fun key mem => by rw [same.keys key, mem]
    apply beq_iff.mpr
    constructor
    · have le := covered.length_le h.distinct
      have ge := covered'.length_le h'.distinct
      rw [h.size, h'.size]
      omega
    · intro e he
      have mine : t.get? e.1 = some e.2 := by
        rw [h.get?_eq, valueOf, h.distinct.find?_eq_some_iff.mpr ⟨he, BEq.rfl⟩]
        rfl
      have present : (u.get? e.1).isSome = true := by
        have keys := same.keys e.1
        rwa [contains, mine, eq_comm, contains] at keys
      obtain ⟨w, found⟩ := Option.isSome_iff_exists.mp present
      exact ⟨w, found, BEq.symm (same.values e.1 e.2 w mine found)⟩

omit [EquivBEq κ] [LawfulHashable κ] in
theorem sameContent_equivalence : Equivalence (SameContent : Trie κ ν → Trie κ ν → Prop) := by
  constructor
  · intro t
    refine ⟨fun _ => rfl, fun key v w found found' => ?_⟩
    rw [found] at found'
    cases found'
    exact BEq.rfl
  · intro t u same
    refine ⟨fun key => (same.keys key).symm, fun key v w found found' => ?_⟩
    exact BEq.symm (same.values key w v found' found)
  · intro t u x same same'
    refine ⟨fun key => (same.keys key).trans (same'.keys key), fun key v w found found' => ?_⟩
    have present : (u.get? key).isSome = true := by
      have keys := same.keys key
      rwa [contains, found, eq_comm, contains] at keys
    obtain ⟨middle, between⟩ := Option.isSome_iff_exists.mp present
    exact BEq.trans (same.values key v middle found between) (same'.values key middle w between
      found')

end

section
variable [BEq κ] [Hashable κ]

/-- What operations on sets arrive at. -/
inductive BuiltSet : TrieSet κ → Prop
  | empty : BuiltSet .empty
  | insert {s : TrieSet κ} (before : BuiltSet s) (key : κ) : BuiltSet (s.insert key)
  | remove {s : TrieSet κ} (before : BuiltSet s) (key : κ) : BuiltSet (s.remove key)
  | union {s s' : TrieSet κ} (before : BuiltSet s) (before' : BuiltSet s') : BuiltSet (s.union s')
  | ofList (keys : List κ) : BuiltSet (.ofList keys)

theorem built_insertAll {s : TrieSet κ} (h : Built s.trie) (keys : List κ) :
    Built (s.insertAll keys).trie :=
  List.foldlRecOn (motive := fun s => Built s.trie) keys TrieSet.insert h
    fun _ built key _ => built.insert key ()

theorem BuiltSet.trie {s : TrieSet κ} (h : BuiltSet s) : Built s.trie := by
  induction h with
  | empty => exact .empty
  | insert _ key ih => exact ih.insert key ()
  | remove _ key ih => exact ih.remove key
  | union _ _ ih ih' =>
    unfold TrieSet.union
    split
    · exact built_insertAll ih' _
    · exact built_insertAll ih _
  | ofList keys => exact built_insertAll .empty keys

/-- The same members. -/
def SameMembers (s s' : TrieSet κ) : Prop := ∀ key, s.contains key = s'.contains key

theorem sameMembers_iff {s s' : TrieSet κ} : SameMembers s s' ↔ SameContent s.trie s'.trie :=
  ⟨fun same => ⟨same, fun _ _ _ _ _ => rfl⟩, fun same => same.keys⟩

end

/-- An equality that says what two values hold is the same, and an input for hashes that is the
same then. -/
structure ByContent {α χ : Type} [BEq α] (built : α → Prop) (same : α → α → Prop) (input : α → χ) :
    Prop where
  equal_iff : ∀ a b, built a → built b → ((a == b) = true ↔ same a b)
  refl : ∀ a, built a → (a == a) = true
  symm : ∀ a b, built a → built b → (a == b) = true → (b == a) = true
  trans : ∀ a b c, built a → built b → built c → (a == b) = true → (b == c) = true →
    (a == c) = true
  input_eq : ∀ a b, built a → built b → (a == b) = true → input a = input b

theorem ByContent.of_equivalence {α χ : Type} [BEq α] {built : α → Prop} {same : α → α → Prop}
    {input : α → χ} (equal_iff : ∀ a b, built a → built b → ((a == b) = true ↔ same a b))
    (equivalence : Equivalence same)
    (input_eq : ∀ a b, built a → built b → (a == b) = true → input a = input b) :
    ByContent built same input where
  equal_iff := equal_iff
  refl a ha := (equal_iff a a ha ha).mpr (equivalence.refl a)
  symm a b ha hb equal :=
    (equal_iff b a hb ha).mpr (equivalence.symm ((equal_iff a b ha hb).mp equal))
  trans a b c ha hb hc equal equal' :=
    (equal_iff a c ha hc).mpr
      (equivalence.trans ((equal_iff a b ha hb).mp equal) ((equal_iff b c hb hc).mp equal'))
  input_eq := input_eq

section
variable [BEq κ] [EquivBEq κ] [Hashable κ] [LawfulHashable κ]

theorem Sound.hashInput_eq [BEq ν] [EquivBEq ν] {t u : Trie κ ν} (h : Sound t) (h' : Sound u)
    (equal : (t == u) = true) {entryHash : κ × ν → UInt64} (respects : Respects entryHash) :
    hashInput entryHash t = hashInput entryHash u := by
  rw [hashInput, hashInput, (beq_iff.mp equal).1, respects.sum_eq (h.sameEntries h' equal)]

variable [BEq ν] [EquivBEq ν]

theorem byContent_trie {entryHash : κ × ν → UInt64} (respects : Respects entryHash) :
    ByContent (Built : Trie κ ν → Prop) SameContent (hashInput entryHash) :=
  .of_equivalence (fun _ _ ht hu => ht.sound.beq_iff_sameContent hu.sound) sameContent_equivalence
    fun _ _ ht hu equal => ht.sound.hashInput_eq hu.sound equal respects

theorem byContent_set {entryHash : κ × Unit → UInt64} (respects : Respects entryHash) :
    ByContent (BuiltSet : TrieSet κ → Prop) SameMembers fun s => hashInput entryHash s.trie := by
  have inner := byContent_trie respects
  apply ByContent.of_equivalence
  · intro s s' hs hs'
    exact (inner.equal_iff _ _ hs.trie hs'.trie).trans sameMembers_iff.symm
  · exact ⟨fun _ _ => rfl, fun same key => (same key).symm,
      fun same same' key => (same key).trans (same' key)⟩
  · intro s s' hs hs'
    exact inner.input_eq _ _ hs.trie hs'.trie

/-- Tries that share their root have the same size. -/
theorem Sound.equal_eq {t u : Trie κ ν} (h : Sound t) (h' : Sound u) {sharesRoot : Bool}
    (shared : sharesRoot = true → t.root = u.root) : equal sharesRoot t u = (t == u) := by
  cases sharesRoot with
  | false => rfl
  | true =>
    have same : t = u := by
      have root := shared rfl
      have size : t.size = u.size := by rw [h.size, h'.size, Trie.toList, Trie.toList, root]
      cases t
      cases u
      cases root
      cases size
      rfl
    rw [equal, Bool.true_or, same]
    exact ((h'.beq_iff_sameContent h').mpr (sameContent_equivalence.refl u)).symm

variable [Hashable ν] [LawfulHashable ν]

/-- Tries are equal if and only if they hold the same keys with equal values, whatever built them
and whichever forms of the keys they store, and so are sets. Then hashes of both are made from the
same input, for every hash of single entries that respects equality. A shortcut for tries that
share their root answers the same. -/
theorem equal_by_content :
    ByContent (Built : Trie κ ν → Prop) SameContent contentHash ∧
    ByContent (BuiltSet : TrieSet κ → Prop) SameMembers TrieSet.contentHash ∧
    (∀ entryHash : κ × ν → UInt64, Respects entryHash →
      ByContent (Built : Trie κ ν → Prop) SameContent (hashInput entryHash)) ∧
    ∀ t u : Trie κ ν, Built t → Built u → ∀ sharesRoot : Bool,
      (sharesRoot = true → t.root = u.root) → equal sharesRoot t u = (t == u) := by
  refine ⟨byContent_trie respects_entryHash, byContent_set respects_entryHash, ?_, ?_⟩
  · intro entryHash respects
    exact byContent_trie respects
  · intro t u ht hu sharesRoot shared
    exact ht.sound.equal_eq hu.sound shared

end

/-- A colliding key in two forms, the value of another one combined on the way, and two sets with
the same keys. -/
theorem equal_by_content_two_forms :
    let a : Key := .bucketed 7 1 "a"
    let a' : Key := .bucketed 7 1 "again"
    let b : Key := .bucketed 7 2 "b"
    let t : Trie Key Nat := .ofList [(a, 1), (b, 2)]
    let u : Trie Key Nat := ((Trie.ofList [(b, 5), (.int 5, 4)]).mergeWith [(a', 1), (b, 3)]
      (· - ·)).remove (.int 5)
    let s : TrieSet Key := .ofList [a, b]
    let s' : TrieSet Key := (TrieSet.ofList [b]).union (.ofList [a'])
    (EquivBEq Key ∧ LawfulHashable Key ∧ EquivBEq Nat ∧ LawfulHashable Nat) ∧
      (Built t ∧ Built u ∧ SameContent t u ∧ t.contentHash = u.contentHash) ∧
      BuiltSet s ∧ BuiltSet s' ∧ SameMembers s s' ∧ s.contentHash = s'.contentHash := by
  intro a a' b t u s s'
  obtain ⟨tries, sets, _⟩ := @equal_by_content Key Nat _ _ _ _ _ _ _ _
  have ht : Built t := .ofList _
  have hu : Built u := ((Built.ofList _).mergeWith _ _).remove _
  have hs : BuiltSet s := .ofList _
  have hs' : BuiltSet s' := .union (.ofList _) (.ofList _)
  have equal : (t == u) = true := by decide +kernel
  have equal' : (s == s') = true := by decide +kernel
  refine ⟨⟨inferInstance, inferInstance, inferInstance, inferInstance⟩, ?_, ?_⟩
  · exact ⟨ht, hu, (tries.equal_iff t u ht hu).mp equal, tries.input_eq t u ht hu equal⟩
  · exact ⟨hs, hs', (sets.equal_iff s s' hs hs').mp equal', sets.input_eq s s' hs hs' equal'⟩

end ModuleSystem.Trie
