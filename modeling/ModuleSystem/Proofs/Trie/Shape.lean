import ModuleSystem.Proofs.Trie.Reachable

/-! A trie has one shape for each set of keys: in whatever order its keys came and whatever else was
there in between, its branches, leaves and collisions stand at the same places. -/

namespace ModuleSystem.Trie

variable {κ ν : Type}

section
variable [BEq κ]

/-- The same keys, up to their order. -/
def SameKeys (l l' : List (κ × ν)) : Prop :=
  ∃ m, l'.Perm m ∧ List.Forall₂ (fun a b => (a.1 == b.1) = true) l m

/-- Each key of the first list is in the second. -/
def Covered (l l' : List (κ × ν)) : Prop := ∀ e ∈ l, ∃ e' ∈ l', (e.1 == e'.1) = true

variable [EquivBEq κ] {l l' : List (κ × ν)}

/-- Entries with different keys have different partners, if partners have equal keys. -/
theorem exists_matching {R : κ × ν → κ × ν → Prop} (keys : ∀ a b, R a b → (a.1 == b.1) = true)
    (distinct : DistinctKeys l) (each : ∀ e ∈ l, ∃ e' ∈ l', R e e') :
    ∃ m rest, l'.Perm (m ++ rest) ∧ List.Forall₂ R l m := by
  induction l generalizing l' with
  | nil => exact ⟨[], l', .refl _, .nil⟩
  | cons e l ih =>
    obtain ⟨differ, distinct⟩ := List.pairwise_cons.mp distinct
    obtain ⟨⟨e', mem, partner⟩, each⟩ := List.forall_mem_cons.mp each
    obtain ⟨a, b, rfl⟩ := List.append_of_mem mem
    have others : ∀ x ∈ l, ∃ x' ∈ a ++ b, R x x' := by
      intro x hx
      obtain ⟨x', hx', related⟩ := each x hx
      obtain rfl | other := List.mem_cons.mp (List.perm_middle.mem_iff.mp hx')
      · have same : (e.1 == x.1) = true :=
          BEq.trans (keys e x' partner) (BEq.symm (keys x x' related))
        rw [differ x hx] at same
        cases same
      · exact ⟨x', other, related⟩
    obtain ⟨m, rest, perm, pairs⟩ := ih distinct others
    exact ⟨e' :: m, rest, List.perm_middle.trans (perm.cons e'), .cons partner pairs⟩

theorem Covered.length_le (h : Covered l l') (distinct : DistinctKeys l) :
    l.length ≤ l'.length := by
  obtain ⟨m, rest, perm, pairs⟩ := exists_matching (fun _ _ same => same) distinct h
  rw [perm.length_eq, List.length_append, pairs.length_eq]
  omega

theorem Covered.sameKeys (h : Covered l l') (h' : Covered l' l) (distinct : DistinctKeys l)
    (distinct' : DistinctKeys l') : SameKeys l l' := by
  obtain ⟨m, rest, perm, pairs⟩ := exists_matching (fun _ _ same => same) distinct h
  have back := h'.length_le distinct'
  have whole := perm.length_eq
  rw [List.length_append, ← pairs.length_eq] at whole
  obtain rfl : rest = [] := List.eq_nil_of_length_eq_zero (by omega)
  rw [List.append_nil] at perm
  exact ⟨m, perm, pairs⟩

end

/-- Two nodes that differ in their values only, in the forms that their keys are stored in, and in
the order of the entries of collisions. -/
inductive SameShape [BEq κ] : Node κ ν → Node κ ν → Prop
  | empty : SameShape .empty .empty
  | leaf {h : UInt64} {k k' : κ} {v v' : ν} (same : (k == k') = true) :
      SameShape (.leaf h k v) (.leaf h k' v')
  | collision {h : UInt64} {entries entries' : List (κ × ν)} (same : SameKeys entries entries') :
      SameShape (.collision h entries) (.collision h entries')
  | branch {bitmap : BitVec 32} {children children' : List (Node κ ν)}
      (count : children.length = children'.length)
      (each : ∀ p ∈ children.zip children', SameShape p.1 p.2) :
      SameShape (.branch bitmap children) (.branch bitmap children')

section
variable [BEq κ] [Hashable κ]

/-- Below a branch, hashes part. -/
theorem WellFormed.parts {path : List Nat} {n : Node κ ν} (h : WellFormed path n)
    (isBranch : n.isCollapsible = false) :
    ∃ a ∈ n.toList, ∃ b ∈ n.toList, hash a.1 ≠ hash b.1 := by
  induction h with
  | leaf => cases isBranch
  | collision => cases isBranch
  | @branch path bitmap children _ count placed needed ih =>
    rw [toList_branch]
    have nodup : (occupied bitmap).Nodup := List.nodup_range.filter _
    rcases children with _ | ⟨c, _ | ⟨d, rest⟩⟩
    · exact needed.elim
    · obtain ⟨s, mem⟩ := exists_slot_of_mem count (List.mem_singleton_self c)
      rw [List.flatMap_singleton]
      exact ih _ mem needed
    · generalize occupied bitmap = slots at count placed nodup
      rcases slots with _ | ⟨s, _ | ⟨u, slots⟩⟩
      · simp at count
      · simp at count
      · have first := placed (s, c) (by simp)
        have second := placed (u, d) (by simp)
        obtain ⟨a, ha⟩ := first.exists_entry
        obtain ⟨b, hb⟩ := second.exists_entry
        refine ⟨a, by simp [ha], b, by simp [hb], ?_⟩
        intro same
        have atA := (follows_snoc.mp (first.follows a ha)).2
        have atB := (follows_snoc.mp (second.follows b hb)).2
        have distinct : s ≠ u := by
          rintro rfl
          simp at nodup
        rw [← same] at atB
        exact distinct (atA.symm.trans atB)

variable [EquivBEq κ] [LawfulHashable κ]

omit [EquivBEq κ] in
/-- The keys of a branch do not all have one hash. -/
theorem WellFormed.not_covered {path : List Nat} {bitmap : BitVec 32} {children : List (Node κ ν)}
    (wf : WellFormed path (.branch bitmap children)) {l : List (κ × ν)} {h : UInt64}
    (keyHash : ∀ e ∈ l, hash e.1 = h) : ¬Covered (Node.branch bitmap children).toList l := by
  intro covered
  obtain ⟨a, ha, b, hb, differ⟩ := wf.parts rfl
  obtain ⟨a', ha', sameA⟩ := covered a ha
  obtain ⟨b', hb', sameB⟩ := covered b hb
  apply differ
  rw [LawfulHashable.hash_eq _ _ sameA, LawfulHashable.hash_eq _ _ sameB, keyHash a' ha',
    keyHash b' hb']

omit [EquivBEq κ] in
/-- A slot is occupied if a key below the branch takes it. -/
theorem WellFormed.occupied_of_covered {path : List Nat} {bitmap bitmap' : BitVec 32}
    {children children' : List (Node κ ν)} (wf : WellFormed path (.branch bitmap children))
    (wf' : WellFormed path (.branch bitmap' children'))
    (covered : Covered (Node.branch bitmap children).toList (Node.branch bitmap' children').toList)
    {s : Nat} (hs : s < 32) (taken : bitmap.getLsbD s = true) : bitmap'.getLsbD s = true := by
  obtain ⟨before, child, after, split, _, mem⟩ := wf.child hs taken
  cases wf with
  | branch _ _ placed _ =>
    obtain ⟨e, he⟩ := (placed _ mem).exists_entry
    obtain ⟨e', he', same⟩ := covered e (by simp [toList_branch, split, he])
    have there := (follows_snoc.mp ((placed _ mem).follows e he)).2
    cases wf' with
    | branch _ count' placed' _ =>
      rw [toList_branch] at he'
      have found := Placed.slot_mem ⟨count', placed'⟩ he'
      rw [← LawfulHashable.hash_eq _ _ same, there] at found
      simpa using (List.mem_filter.mp found).2

omit [EquivBEq κ] in
/-- Children at one slot have the same keys, since a key is only where its hash leads. -/
theorem Placed.covered {path slots : List Nat} {children children' : List (Node κ ν)}
    (h : Placed path slots children) (h' : Placed path slots children') (nodup : slots.Nodup)
    (covered : Covered (children.flatMap Node.toList) (children'.flatMap Node.toList)) :
    ∀ p ∈ children.zip children', Covered p.1.toList p.2.toList := by
  induction slots generalizing children children' with
  | nil =>
    obtain rfl : children = [] := List.eq_nil_of_length_eq_zero h.count.symm
    intro p mem
    cases mem
  | cons s slots ih =>
    obtain ⟨fresh, nodup⟩ := List.nodup_cons.mp nodup
    rcases children with _ | ⟨c, children⟩
    · cases h.count
    rcases children' with _ | ⟨c', children'⟩
    · cases h'.count
    obtain ⟨first, later⟩ := placed_cons.mp h
    obtain ⟨first', later'⟩ := placed_cons.mp h'
    rw [List.flatMap_cons, List.flatMap_cons] at covered
    rw [List.zip_cons_cons, List.forall_mem_cons]
    constructor
    · intro e he
      obtain ⟨e', he', same⟩ := covered e (List.mem_append_left _ he)
      obtain here | below := List.mem_append.mp he'
      · exact ⟨e', here, same⟩
      · have slotE := (follows_snoc.mp (first.follows e he)).2
        have slotE' := later'.slot_mem below
        rw [← LawfulHashable.hash_eq _ _ same, slotE] at slotE'
        exact absurd slotE' fresh
    · refine ih later later' nodup fun e he => ?_
      obtain ⟨e', he', same⟩ := covered e (List.mem_append_right _ he)
      obtain here | below := List.mem_append.mp he'
      · have slotE := later.slot_mem he
        have slotE' := (follows_snoc.mp (first'.follows e' here)).2
        rw [LawfulHashable.hash_eq _ _ same, slotE'] at slotE
        exact absurd slotE fresh
      · exact ⟨e', below, same⟩

omit [BEq κ] [Hashable κ] [EquivBEq κ] [LawfulHashable κ] in
/-- Children side by side stand behind one slot. -/
theorem exists_slot_of_pair {slots : List Nat} {children children' : List (Node κ ν)}
    {p : Node κ ν × Node κ ν} (count : slots.length = children.length)
    (mem : p ∈ children.zip children') :
    ∃ s, (s, p.1) ∈ slots.zip children ∧ (s, p.2) ∈ slots.zip children' := by
  obtain ⟨i, hi, rfl⟩ := List.mem_iff_getElem.mp mem
  rw [List.length_zip] at hi
  have inside : i < slots.length := by omega
  rw [List.getElem_zip]
  refine ⟨slots[i], ?_, ?_⟩
  · exact List.mem_iff_getElem.mpr ⟨i, by rw [List.length_zip]; omega, List.getElem_zip⟩
  · exact List.mem_iff_getElem.mpr ⟨i, by rw [List.length_zip]; omega, List.getElem_zip⟩

/-- Nodes at one place that have the same keys have the same shape. -/
theorem WellFormed.sameShape {path : List Nat} {n n' : Node κ ν} (h : WellFormed path n)
    (h' : WellFormed path n') (covered : Covered n.toList n'.toList)
    (covered' : Covered n'.toList n.toList) : SameShape n n' := by
  have distinct := h.distinct
  have distinct' := h'.distinct
  induction h generalizing n' with
  | @leaf path h k v keyHash below =>
    have all : ∀ e ∈ (Node.leaf h k v).toList, hash e.1 = h := by simpa [Node.toList] using keyHash
    cases h' with
    | @leaf _ h' k' v' keyHash' =>
      simp only [Covered, Node.toList, List.mem_singleton, forall_eq, exists_eq_left] at covered
      obtain rfl : h = h' := by rw [← keyHash, ← keyHash', LawfulHashable.hash_eq _ _ covered]
      exact .leaf covered
    | collision _ _ several =>
      have fewer := covered'.length_le distinct'
      simp only [Node.toList, List.length_singleton] at fewer
      omega
    | branch depth count placed needed =>
      exact absurd covered' ((WellFormed.branch depth count placed needed).not_covered all)
  | @collision path h entries keyHash below several =>
    have all : ∀ e ∈ (Node.collision h entries).toList, hash e.1 = h := by rwa [Node.toList]
    cases h' with
    | leaf =>
      have fewer := covered.length_le distinct
      simp only [Node.toList, List.length_singleton] at fewer
      omega
    | @collision _ h' entries' keyHash' _ several' =>
      simp only [Node.toList] at covered covered' distinct distinct'
      obtain ⟨e, he⟩ := List.exists_mem_of_length_pos (l := entries) (by omega)
      obtain ⟨e', he', same⟩ := covered e he
      obtain rfl : h = h' := by
        rw [← keyHash e he, ← keyHash' e' he', LawfulHashable.hash_eq _ _ same]
      exact .collision (covered.sameKeys covered' distinct distinct')
    | branch depth count placed needed =>
      exact absurd covered' ((WellFormed.branch depth count placed needed).not_covered all)
  | @branch path bitmap children depth count placed needed ih =>
    have wf := WellFormed.branch depth count placed needed
    cases h' with
    | leaf keyHash =>
      exact absurd covered (wf.not_covered (by simpa [Node.toList] using keyHash))
    | collision keyHash =>
      exact absurd covered (wf.not_covered (by rwa [Node.toList]))
    | @branch _ bitmap' children' depth' count' placed' needed' =>
      have wf' := WellFormed.branch depth' count' placed' needed'
      obtain rfl : bitmap = bitmap' := by
        apply BitVec.eq_of_getLsbD_eq
        intro s hs
        rw [Bool.eq_iff_iff]
        exact ⟨wf.occupied_of_covered wf' covered hs, wf'.occupied_of_covered wf covered' hs⟩
      have nodup : (occupied bitmap).Nodup := List.nodup_range.filter _
      rw [toList_branch, toList_branch] at covered covered'
      have each := Placed.covered ⟨count, placed⟩ ⟨count', placed'⟩ nodup covered
      have each' := Placed.covered ⟨count', placed'⟩ ⟨count, placed⟩ nodup covered'
      refine .branch (count.symm.trans count') fun p mem => ?_
      obtain ⟨s, here, there⟩ := exists_slot_of_pair count mem
      have turned : p.swap ∈ children'.zip children := by
        rw [← List.zip_swap]
        exact List.mem_map_of_mem mem
      exact ih (s, p.1) here (placed' _ there) (each p mem) (each' _ turned)
        (placed _ here).distinct (placed' _ there).distinct

end

section
variable [BEq κ] [Hashable κ] {t u : Trie κ ν}

section
variable [EquivBEq κ] [LawfulHashable κ]

theorem Sound.sameShape (h : Sound t) (h' : Sound u) (covered : Covered t.toList u.toList)
    (covered' : Covered u.toList t.toList) : SameShape t.root u.root := by
  obtain empty | wf := h.root
  · have none : u.toList = [] := by
      apply List.eq_nil_iff_forall_not_mem.mpr
      intro e he
      obtain ⟨e', he', _⟩ := covered' e he
      rw [Trie.toList, empty, Node.toList] at he'
      cases he'
    rw [h'.eq_empty none, empty]
    exact .empty
  · obtain empty' | wf' := h'.root
    · obtain ⟨e, he⟩ := wf.exists_entry
      obtain ⟨e', he', _⟩ := covered e he
      rw [Trie.toList, empty', Node.toList] at he'
      cases he'
    · exact wf.sameShape wf' covered covered'

theorem Sound.covered (h : Sound t) (h' : Sound u)
    (le : ∀ key, t.contains key = true → u.contains key = true) : Covered t.toList u.toList := by
  intro e he
  have found := le e.1
  rw [Trie.contains, Trie.contains, h.get?_eq, h'.get?_eq, valueOf, valueOf, Option.isSome_map,
    Option.isSome_map, List.find?_isSome, List.find?_isSome] at found
  obtain ⟨e', he', same⟩ := found ⟨e, he, BEq.rfl⟩
  exact ⟨e', he', BEq.symm same⟩

variable [BEq ν]

/-- A key that is new and taken out again leaves the entries that were there. -/
theorem Sound.remove_insert (h : Sound t) {key : κ} (value : ν) (new : t.contains key = false) :
    Represents ((t.insert key value).remove key) t.toList := by
  have start : Represents t t.toList := ⟨h, .refl _⟩
  have none : PairMap.stored? t.toList key = none := by
    have absent := start.agrees.contains key
    rw [new] at absent
    exact Option.not_isSome_iff_eq_none.mp (by rw [← absent]; simp)
  have after := ((start.insert key value).1.remove key).1
  have inserted : PairMap.insert t.toList key value = t.toList ++ [(key, value)] := by
    rw [PairMap.insert, none]
  have removed : PairMap.remove (t.toList ++ [(key, value)]) key = t.toList := by
    have distinct := (start.insert key value).1.sound.distinct.perm
      (start.insert key value).1.entries.symm
    rw [inserted] at distinct
    have gone := filter_remove distinct (BEq.refl key)
    rwa [List.append_nil] at gone
  rwa [inserted, removed] at after

/-- The entries that are left when keys are removed. -/
theorem Represents.removeAll {m : PairMap κ ν} (h : Represents t m) (keys : List κ) :
    Represents (t.removeAll keys) (m.filter fun e => !keys.any (e.1 == ·)) := by
  induction keys generalizing t m with
  | nil =>
    have whole : m.filter (fun _ => true) = m := List.filter_eq_self.mpr fun _ _ => rfl
    simpa [Trie.removeAll, whole] using h
  | cons key keys ih =>
    have rest := ih (h.remove key).1
    rw [PairMap.remove, List.filter_filter] at rest
    have both : (fun e : κ × ν => !keys.any (e.1 == ·) && !(e.1 == key)) =
        fun e => !(key :: keys).any (e.1 == ·) := by
      funext e
      rw [List.any_cons, Bool.not_or, Bool.and_comm]
    rwa [both] at rest

end

theorem SameKeys.of_bySameKey {l l' : List (κ × ν)} (h : @SameKeys κ ν (bySameKey κ) l l') :
    SameKeys l l' := by
  obtain ⟨m, perm, pairs⟩ := h
  exact ⟨m, perm, pairs.imp fun _ _ same => (sameKey_iff.mp same).2⟩

theorem SameShape.of_bySameKey {n n' : Node κ ν} (h : @SameShape κ ν (bySameKey κ) n n') :
    SameShape n n' := by
  induction h with
  | empty => exact .empty
  | leaf same => exact .leaf (sameKey_iff.mp same).2
  | collision same => exact .collision same.of_bySameKey
  | branch count _ ih => exact .branch count ih

variable [EquivBEq κ]

theorem Sound.sameShape_of_contains (h : Sound t) (h' : Sound u)
    (same : ∀ key, t.contains key = u.contains key) : SameShape t.root u.root := by
  have lawful := @lawfulHashable_bySameKey κ _ _
  have equiv := @equivBEq_bySameKey κ _ _ _
  have sound := Sound.bySameKey_iff.mpr h
  have sound' := Sound.bySameKey_iff.mpr h'
  apply SameShape.of_bySameKey
  apply @Sound.sameShape κ ν (bySameKey κ) _ t u equiv lawful sound sound'
  · refine @Sound.covered κ ν (bySameKey κ) _ t u equiv lawful sound sound' fun key mem => ?_
    rw [h.contains_bySameKey] at mem
    rw [h'.contains_bySameKey, ← same key, mem]
  · refine @Sound.covered κ ν (bySameKey κ) _ u t equiv lawful sound' sound fun key mem => ?_
    rw [h'.contains_bySameKey] at mem
    rw [h.contains_bySameKey, same key, mem]

variable [BEq ν]

theorem Sound.removeAll_bySameKey (h : Sound t) (keys : List κ) :
    @Trie.removeAll κ ν (bySameKey κ) _ t keys = t.removeAll keys := by
  induction keys generalizing t with
  | nil => rfl
  | cons key keys ih =>
    calc @Trie.removeAll κ ν (bySameKey κ) _ t (key :: keys)
      _ = @Trie.removeAll κ ν (bySameKey κ) _ (@Trie.remove κ ν (bySameKey κ) _ t key) keys := rfl
      _ = @Trie.removeAll κ ν (bySameKey κ) _ (t.remove key) keys := by
        simp only [h.remove_bySameKey]
      _ = (t.remove key).removeAll keys := ih (h.remove key)

/-- A key that is new and taken out again leaves the keys that were there. -/
theorem Sound.contains_remove_insert (h : Sound t) {key : κ} (value : ν)
    (new : t.contains key = false) (other : κ) :
    ((t.insert key value).remove key).contains other = t.contains other := by
  have lawful := @lawfulHashable_bySameKey κ _ _
  have equiv := @equivBEq_bySameKey κ _ _ _
  have absent : @Trie.contains κ ν (bySameKey κ) _ t key = false := by
    rw [h.contains_bySameKey, new]
  have after := @Sound.remove_insert κ ν (bySameKey κ) _ t equiv lawful _
    (Sound.bySameKey_iff.mpr h) key value absent
  rw [h.insert_bySameKey, (h.insert key value).remove_bySameKey] at after
  have agrees := @Represents.agrees κ ν (bySameKey κ) _ lawful equiv _ _ _ after
  have before := @Represents.agrees κ ν (bySameKey κ) _ lawful equiv _ _ _ h.represents
  have answer := (@Agrees.contains κ ν (bySameKey κ) _ _ _ _ agrees other).trans
    (@Agrees.contains κ ν (bySameKey κ) _ _ _ _ before other).symm
  rwa [((h.insert key value).remove key).contains_bySameKey, h.contains_bySameKey] at answer

/-- Nothing is left when every key is removed. -/
theorem Sound.removeAll_eq_empty (h : Sound t) {keys : List κ}
    (all : ∀ key ∈ t.keys, ∃ k ∈ keys, sameKey key k = true) : t.removeAll keys = .empty := by
  have left := @Represents.removeAll κ ν (bySameKey κ) _ t equivBEq_bySameKey
    lawfulHashable_bySameKey _ t.toList h.represents keys
  rw [h.removeAll_bySameKey] at left
  apply (h.removeAll keys).eq_empty
  have none : (t.toList.filter fun e => !keys.any (sameKey e.1 ·)) = [] := by
    rw [List.filter_eq_nil_iff]
    intro e he
    obtain ⟨k, hk, same⟩ := all e.1 (List.mem_map_of_mem he)
    simpa using ⟨k, hk, same⟩
  have perm := @Represents.entries κ ν (bySameKey κ) _ _ _ left
  exact (perm.trans (.of_eq none)).eq_nil

/-- Tries that hold the same keys have the same shape, whatever their values and whatever was done
to build them. So a key that is new and taken out again leaves no trace, and removing the keys one
by one, in any order, ends at the empty node. -/
theorem shape_by_keys (ht : Built t) :
    (∀ u : Trie κ ν, Built u → (∀ key, t.contains key = u.contains key) →
      SameShape t.root u.root) ∧
    (∀ key value, t.contains key = false →
      SameShape ((t.insert key value).remove key).root t.root) ∧
    (∀ keys : List κ, (∀ key ∈ t.keys, ∃ k ∈ keys, sameKey key k = true) →
      t.removeAll keys = .empty) := by
  refine ⟨?_, ?_, ?_⟩
  · intro u hu same
    exact ht.sound.sameShape_of_contains hu.sound same
  · intro key value new
    exact ((ht.sound.insert key value).remove key).sameShape_of_contains ht.sound
      (ht.sound.contains_remove_insert value new)
  · intro keys all
    exact ht.sound.removeAll_eq_empty all

end

/-- Two keys of one bucket, put in by lists of different orders, once past a key that is gone. -/
theorem shape_by_keys_colliding :
    let a : Key := .bucketed 7 1 "a"
    let b : Key := .bucketed 7 2 "b"
    let t : Trie Key Nat := .ofList [(a, 1), (b, 2)]
    let u : Trie Key Nat := (((Trie.empty.insert b 5).insert (.int 5) 4).insert a 1).remove (.int 5)
    (Built t ∧ Built u ∧ (∀ key, t.contains key = u.contains key) ∧ SameShape t.root u.root) ∧
    (t.contains (.text "new") = false ∧
      SameShape ((t.insert (.text "new") 3).remove (.text "new")).root t.root) ∧
    (∀ key ∈ t.keys, ∃ k ∈ [b, a], sameKey key k = true) ∧ t.removeAll [b, a] = .empty := by
  intro a b t u
  have ht : Built t := .ofList _
  have hu : Built u := (((Built.empty.insert b 5).insert _ 4).insert a 1).remove _
  have left : t.root = .collision (hash a) [(a, 1), (b, 2)] := rfl
  have right : u.root = .collision (hash a) [(b, 5), (a, 1)] := by
    simp only [a, b, u]
    rfl
  have contains : ∀ key, t.contains key = u.contains key := by
    intro key
    simp only [Trie.contains, Trie.get?, left, right, Node.get?, List.find?_cons, List.find?_nil]
    cases a == key <;> cases b == key <;> split <;> rfl
  have new : t.contains (.text "new") = false := by decide +kernel
  have keys : ∀ key ∈ t.keys, ∃ k ∈ [b, a], sameKey key k = true := by decide +kernel
  exact ⟨⟨ht, hu, contains, (shape_by_keys ht).1 u hu contains⟩,
    ⟨new, (shape_by_keys ht).2.1 _ 3 new⟩, keys, (shape_by_keys ht).2.2 _ keys⟩

end ModuleSystem.Trie
