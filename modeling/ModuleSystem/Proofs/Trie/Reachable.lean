import ModuleSystem.Proofs.Trie.SameKey
import ModuleSystem.Trie.Bulk

namespace ModuleSystem.Trie

variable {κ ν : Type}

section
variable [BEq κ] [Hashable κ] [BEq ν]

/-- What operations arrive at that start with the empty trie or with a list of entries. -/
inductive Built : Trie κ ν → Prop
  | empty : Built .empty
  | insert {t : Trie κ ν} (before : Built t) (key : κ) (value : ν) : Built (t.insert key value)
  | remove {t : Trie κ ν} (before : Built t) (key : κ) : Built (t.remove key)
  | removeAll {t : Trie κ ν} (before : Built t) (keys : List κ) : Built (t.removeAll keys)
  | selectKeys {t : Trie κ ν} (before : Built t) (keys : List κ) : Built (t.selectKeys keys)
  | mergeWith {t : Trie κ ν} (before : Built t) (entries : List (κ × ν)) (remap : ν → ν → ν) :
      Built (t.mergeWith entries remap)
  | ofList (entries : List (κ × ν)) : Built (.ofList entries)

namespace Sound

variable [EquivBEq κ] {t : Trie κ ν}

theorem removeAll (h : Sound t) (keys : List κ) : Sound (t.removeAll keys) :=
  List.foldlRecOn keys Trie.remove h fun _ sound key _ => sound.remove key

theorem insertAll (h : Sound t) (entries : List (κ × ν)) : Sound (t.insertAll entries) :=
  List.foldlRecOn entries _ h fun _ sound entry _ => sound.insert entry.1 entry.2

/-- One key of a selection. -/
theorem selectStep {kept : Trie κ ν} (h : Sound kept) (t : Trie κ ν) (key : κ) :
    Sound (match t.get? key with
      | some value => kept.insert key value
      | none => kept) := by
  cases t.get? key with
  | none => exact h
  | some value => exact h.insert key value

theorem selectKeys (t : Trie κ ν) (keys : List κ) : Sound (t.selectKeys keys) :=
  List.foldlRecOn keys _ sound_empty fun _ sound key _ => sound.selectStep t key

theorem mergeEntry {state : Trie κ ν × List (ν × ν)} (h : Sound state.1) (remap : ν → ν → ν)
    (entry : κ × ν) : Sound (mergeEntry remap state entry).1 := by
  unfold Trie.mergeEntry
  cases state.1.get? entry.1 with
  | none => exact h.insert entry.1 entry.2
  | some existing => exact h.insert entry.1 (remap existing entry.2)

theorem mergeWith (h : Sound t) (entries : List (κ × ν)) (remap : ν → ν → ν) :
    Sound (t.mergeWith entries remap) :=
  List.foldlRecOn (motive := fun state => Sound state.1) entries (Trie.mergeEntry remap)
    (b := (t, [])) h fun _ sound entry _ => sound.mergeEntry remap entry

end Sound

theorem Built.sound [EquivBEq κ] {t : Trie κ ν} (h : Built t) : Sound t := by
  induction h with
  | empty => exact sound_empty
  | insert _ key value ih => exact ih.insert key value
  | remove _ key ih => exact ih.remove key
  | removeAll _ keys ih => exact ih.removeAll keys
  | selectKeys _ keys _ => exact .selectKeys _ keys
  | mergeWith _ entries remap ih => exact ih.mergeWith entries remap
  | ofList entries => exact sound_empty.insertAll entries

end

/-- The slots of a path lead from one node down to another. -/
inductive Under : Node κ ν → List Nat → Node κ ν → Prop
  | here (n : Node κ ν) : Under n [] n
  | child {bitmap : BitVec 32} {children : List (Node κ ν)} {s : Nat} {child n : Node κ ν}
      {path : List Nat} (mem : (s, child) ∈ (occupied bitmap).zip children)
      (rest : Under child path n) : Under (.branch bitmap children) (s :: path) n

variable [BEq κ] [Hashable κ]

theorem WellFormed.exists_entry {path : List Nat} {n : Node κ ν} (h : WellFormed path n) :
    ∃ e, e ∈ n.toList := by
  induction h with
  | @leaf _ _ key value =>
    rw [Node.toList]
    exact ⟨(key, value), List.mem_singleton_self _⟩
  | collision _ _ several _ =>
    rw [Node.toList]
    exact List.exists_mem_of_length_pos (by omega)
  | @branch _ _ children _ count _ needed ih =>
    rw [toList_branch]
    cases children with
    | nil => exact needed.elim
    | cons child rest =>
      obtain ⟨s, mem⟩ := exists_slot_of_mem count (List.mem_cons_self (a := child) (l := rest))
      obtain ⟨e, he⟩ := ih _ mem
      exact ⟨e, List.mem_flatMap.mpr ⟨child, List.mem_cons_self, he⟩⟩

/-- Only the empty trie has no entries. -/
theorem Sound.eq_empty {t : Trie κ ν} (h : Sound t) (none : t.toList = []) : t = .empty := by
  obtain empty | wf := h.root
  · have size := h.size
    rw [none] at size
    cases t
    cases empty
    cases size
    rfl
  · obtain ⟨e, he⟩ := wf.exists_entry
    rw [Trie.toList] at none
    rw [none] at he
    cases he

theorem WellFormed.under {path path' : List Nat} {n n' : Node κ ν} (h : WellFormed path n)
    (leads : Under n path' n') : WellFormed (path ++ path') n' := by
  induction leads generalizing path with
  | here => rwa [List.append_nil]
  | @child bitmap children s child n' path' mem rest ih =>
    cases h with
    | branch _ _ placed _ =>
      have deeper := ih (placed _ mem)
      rwa [List.append_assoc] at deeper

/-- What holds of every node of a trie, and of its cached size. A branch behind `d` slots reads the
hash from bit `5 * d` on. -/
structure Invariant (t : Trie κ ν) : Prop where
  empty : ∀ path, Under t.root path .empty → path = []
  branch : ∀ path bitmap children, Under t.root path (.branch bitmap children) →
    children.length = (occupied bitmap).length ∧ 5 * path.length ≤ 60 ∧ NeedsBranch children
  leaf : ∀ path h key value, Under t.root path (.leaf h key value) → Follows path h ∧ hash key = h
  collision : ∀ path h entries, Under t.root path (.collision h entries) →
    Follows path h ∧ (∀ e ∈ entries, hash e.1 = h) ∧ 2 ≤ entries.length ∧ DistinctKeys entries
  size : t.size = t.toList.length

theorem Sound.invariant {t : Trie κ ν} (h : Sound t) : t.Invariant := by
  obtain empty | wf := h.root
  · have only : ∀ path n, Under t.root path n → path = [] ∧ n = .empty := by
      intro path n leads
      rw [empty] at leads
      cases leads
      exact ⟨rfl, rfl⟩
    refine ⟨fun path leads => (only path _ leads).1, ?_, ?_, ?_, h.size⟩
    · intro path bitmap children leads
      cases (only path _ leads).2
    · intro path h key value leads
      cases (only path _ leads).2
    · intro path h entries leads
      cases (only path _ leads).2
  · have each : ∀ path n, Under t.root path n → WellFormed path n :=
      fun path n leads => wf.under leads
    refine ⟨fun path leads => ?_, ?_, ?_, ?_, h.size⟩
    · cases each path _ leads
    · intro path bitmap children leads
      cases each path _ leads with
      | branch depth count _ needed =>
        refine ⟨count.symm, ?_, needed⟩
        unfold levels at depth
        omega
    · intro path h key value leads
      cases each path _ leads with
      | leaf keyHash below => exact ⟨below, keyHash⟩
    · intro path h entries leads
      cases each path _ leads with
      | collision keyHash below several distinct => exact ⟨below, keyHash, several, distinct⟩

end ModuleSystem.Trie
