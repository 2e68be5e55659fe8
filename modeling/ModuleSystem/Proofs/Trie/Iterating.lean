import ModuleSystem.Proofs.Trie.Checked
import ModuleSystem.Proofs.Trie.Lookups

/-! One call takes the first of the entries that are left and counts it, and a call with nothing
left leaves it so. By induction this says what any number of calls come to, from the start or from a
copy of a cursor at any point. -/

namespace ModuleSystem.Trie

variable {κ ν α : Type}

namespace Cursor

theorem next_eq_of_none {c : Cursor κ ν} (none : c.next.1 = none) :
    c.next.2 = ⟨[], [], c.remaining⟩ := by
  obtain ⟨stack, pending, remaining⟩ := c
  cases pending with
  | cons entry pending => cases none
  | nil =>
    rw [next] at none ⊢
    cases found : nextOf stack with
    | none => rfl
    | some first => simp [found] at none

theorem next_fst (c : Cursor κ ν) : c.next.1 = c.left.head? := by
  cases entries : c.left with
  | nil => exact next_of_left_nil entries
  | cons entry rest => exact (next_of_left_cons entries).1

theorem left_next (c : Cursor κ ν) : c.next.2.left = c.left.tail := by
  cases entries : c.left with
  | nil =>
    rw [next_eq_of_none (next_of_left_nil entries)]
    rfl
  | cons entry rest => exact (next_of_left_cons entries).2

/-- The counter is the number of entries left. -/
def Counted (c : Cursor κ ν) : Prop := c.remaining = c.left.length

theorem counted_next {c : Cursor κ ν} (h : c.Counted) : c.next.2.Counted := by
  cases answer : c.next.1 with
  | some entry => exact (next_counted h).2 (by rw [answer]; rfl)
  | none =>
    have none_left : c.left = [] := by
      rw [next_fst, List.head?_eq_none_iff] at answer
      exact answer
    rw [Counted, none_left] at h
    rw [Counted, next_eq_of_none answer, h]
    rfl

theorem start_left (t : Trie κ ν) : (start t).left = t.toList := by
  simp [left, start, Node.listEntries, Trie.toList]

/-- A cursor after some calls. -/
def after (call : Cursor κ ν → Option α × Cursor κ ν) : Nat → Cursor κ ν → Cursor κ ν
  | 0, c => c
  | n + 1, c => after call n (call c).2

theorem after_add (call : Cursor κ ν → Option α × Cursor κ ν) (m n : Nat) (c : Cursor κ ν) :
    after call n (after call m c) = after call (m + n) c := by
  induction m generalizing c with
  | zero => rw [after, Nat.zero_add]
  | succ m ih => rw [after, ih, Nat.succ_add, after]

/-- A part of the entries is read by the same steps as the whole of them. -/
theorem after_nextPart (part : κ × ν → α) (n : Nat) (c : Cursor κ ν) :
    after (nextPart part) n c = after next n c := by
  induction n generalizing c with
  | zero => rfl
  | succ n ih => exact ih c.next.2

theorem left_after (n : Nat) (c : Cursor κ ν) : (after next n c).left = c.left.drop n := by
  induction n generalizing c with
  | zero => rfl
  | succ n ih => rw [after, ih, left_next, List.drop_tail]

theorem next_after (n : Nat) (c : Cursor κ ν) : (after next n c).next.1 = c.left[n]? := by
  rw [next_fst, left_after, List.head?_drop]

theorem counted_after {c : Cursor κ ν} (h : c.Counted) (n : Nat) : (after next n c).Counted := by
  induction n generalizing c with
  | zero => exact h
  | succ n ih => exact ih (counted_next h)

/-- One turn of the search for the next entry: it goes on, or it answers. -/
def turn (c : Cursor κ ν) : Cursor κ ν ⊕ (Option (κ × ν) × Cursor κ ν) :=
  match c.pending with
  | entry :: rest => .inr (some entry, ⟨c.stack, rest, c.remaining - 1⟩)
  | [] =>
    match c.stack with
    | [] => .inr (none, c)
    | [] :: stack => .inl { c with stack }
    | (.empty :: nodes) :: stack => .inl { c with stack := nodes :: stack }
    | (.leaf _ key value :: nodes) :: stack =>
      .inr (some (key, value), ⟨nodes :: stack, [], c.remaining - 1⟩)
    | (.collision _ entries :: nodes) :: stack =>
      .inl { c with stack := nodes :: stack, pending := entries }
    | (.branch _ children :: nodes) :: stack => .inl { c with stack := children :: nodes :: stack }

/-- The answer of at most so many turns. -/
def loop : Nat → Cursor κ ν → Option (Option (κ × ν) × Cursor κ ν)
  | 0, _ => none
  | turns + 1, c =>
    match c.turn with
    | .inl c => loop turns c
    | .inr answer => some answer

/-- A turn that goes on makes the stack lighter and loses nothing of the answer. -/
theorem turn_spec (c : Cursor κ ν) :
    match c.turn with
    | .inl rest => rest.next = c.next ∧ stackWeight rest.stack < stackWeight c.stack
    | .inr answer => answer = c.next := by
  obtain ⟨stack, pending, remaining⟩ := c
  cases pending with
  | cons entry pending => rfl
  | nil =>
    cases stack with
    | nil => simp [turn, next, nextOf]
    | cons nodes stack =>
      cases nodes with
      | nil => simp [turn, next, nextOf, stackWeight]
      | cons node nodes =>
        cases node with
        | empty =>
          simp [turn, next, nextOf, stackWeight, Node.listWeight, Node.weight]
        | leaf h key value => simp [turn, next, nextOf]
        | collision h entries =>
          have lighter : stackWeight (nodes :: stack) <
              stackWeight ((.collision h entries :: nodes) :: stack) := by
            simp [stackWeight, Node.listWeight, Node.weight]
          cases entries <;> simp [turn, next, nextOf, lighter]
        | branch bitmap children =>
          simp [turn, next, nextOf, stackWeight, Node.listWeight, Node.weight]
          omega

theorem loop_eq {turns : Nat} {c : Cursor κ ν} (enough : stackWeight c.stack < turns) :
    loop turns c = some c.next := by
  induction turns generalizing c with
  | zero => omega
  | succ turns ih =>
    have spec := turn_spec c
    rw [loop]
    cases result : c.turn with
    | inl rest =>
      rw [result] at spec
      obtain ⟨answer, lighter⟩ := spec
      rw [← answer]
      exact ih (by omega)
    | inr answer =>
      rw [result] at spec
      exact congrArg some spec

end Cursor

open Cursor

/-- Calls from the start of a trie, and from a copy of the cursor at any point, answer with what is
listed, in its order, and know how much is left of it. -/
structure Reads (t : Trie κ ν) (call : Cursor κ ν → Option α × Cursor κ ν) (listed : List α) :
    Prop where
  answer : ∀ m n, (call (after call n (after call m (start t)))).1 = listed[m + n]?
  ends : ∀ n, (call (after call n (start t))).1.isSome = decide (n < t.size)
  hint : ∀ m n, (after call n (after call m (start t))).sizeHint =
    (t.size - min (m + n) t.size, t.size - min (m + n) t.size)

section
variable [BEq κ] [Hashable κ] {t : Trie κ ν}

theorem Sound.counted_start (h : Sound t) : (start t).Counted := by
  rw [Counted, start_left, start, h.size]

theorem Sound.remaining_after (h : Sound t) (n : Nat) :
    (after next n (start t)).remaining = t.size - min n t.size := by
  have counted := counted_after h.counted_start n
  rw [Counted, left_after, start_left, List.length_drop, ← h.size] at counted
  omega

theorem Sound.reads_nextPart (h : Sound t) (part : κ × ν → α) :
    Reads t (nextPart part) (t.toList.map part) where
  answer m n := by
    rw [after_add, after_nextPart, List.getElem?_map, ← start_left, ← next_after]
    rfl
  ends n := by
    have answer : (nextPart part (after next n (start t))).1 = t.toList[n]?.map part := by
      rw [← start_left, ← next_after]
      rfl
    rw [after_nextPart, answer, Option.isSome_map, h.size, Bool.eq_iff_iff]
    simp
  hint m n := by
    rw [after_add, after_nextPart, sizeHint, h.remaining_after]

theorem Sound.reads_next (h : Sound t) : Reads t next t.toList := by
  have whole : (next : Cursor κ ν → _) = nextPart id := by
    funext c
    rw [nextPart, Option.map_id]
    rfl
  have reads := h.reads_nextPart id
  rwa [← whole, List.map_id] at reads

end

/-- Every entry comes exactly once, the counter does not go below zero, and every call comes to its
end after as many turns as there are nodes to look at. -/
structure ExactTraversal [BEq κ] [Hashable κ] (t : Trie κ ν) : Prop where
  entries : Reads t next t.toList
  keys : Reads t nextKey t.keys
  values : Reads t nextValue t.values
  /-- What comes is in the trie. -/
  only : ∀ n key value, (after next n (start t)).next.1 = some (key, value) →
    t.get? key = some value
  /-- What is in the trie comes, at one call. -/
  once : ∀ key value, t.get? key = some value → ∃ n k,
    ((after next n (start t)).next.1 = some (k, value) ∧ sameKey k key = true) ∧
      ∀ n' k' v', (after next n' (start t)).next.1 = some (k', v') → sameKey k' key = true → n' = n
  counted : ∀ m n, (after next n (after next m (start t))).nextChecked =
    .ok (after next n (after next m (start t))).next
  terminates : ∀ m n turns, stackWeight (after next n (after next m (start t))).stack < turns →
    loop turns (after next n (after next m (start t))) =
      some (after next n (after next m (start t))).next

variable [BEq κ] [Hashable κ] [EquivBEq κ] {t : Trie κ ν}

/-- No key is at two places. -/
theorem Sound.place_unique (h : Sound t) {key : κ} {m n : Nat} {hm : m < t.toList.length}
    {hn : n < t.toList.length} (first : sameKey (t.toList[m]).1 key = true)
    (second : sameKey (t.toList[n]).1 key = true) : m = n := by
  have apart := List.pairwise_iff_getElem.mp h.apart
  have one : sameKey (t.toList[m]).1 (t.toList[n]).1 = true := by
    rw [sameKey_congr_right second, first]
  rcases Nat.lt_trichotomy m n with before | same | behind
  · rw [apart m n hm hn before] at one
    cases one
  · exact same
  · rw [sameKey_comm, apart n m hn hm behind] at one
    cases one

theorem Sound.traversal (h : Sound t) : ExactTraversal t where
  entries := h.reads_next
  keys := h.reads_nextPart _
  values := h.reads_nextPart _
  only n key value answer := by
    rw [next_after, start_left] at answer
    exact h.get?_eq_some_iff.mpr ⟨_, List.mem_of_getElem? answer, sameKey_refl key, rfl⟩
  once key value found := by
    obtain ⟨⟨k, v⟩, mem, same, rfl⟩ := h.get?_eq_some_iff.mp found
    obtain ⟨n, bound, listed⟩ := List.mem_iff_getElem.mp mem
    refine ⟨n, k, ⟨?_, same⟩, fun n' k' v' answer same' => ?_⟩
    · rw [next_after, start_left, List.getElem?_eq_getElem bound, listed]
    · rw [next_after, start_left, List.getElem?_eq_some_iff] at answer
      obtain ⟨bound', listed'⟩ := answer
      exact h.place_unique (by rw [listed', same']) (by rw [listed, same])
  counted m n := by
    rw [after_add]
    exact (next_counted (counted_after h.counted_start (m + n))).1
  terminates m n turns enough := loop_eq enough

/-- Traversals of all tries that operations arrive at, for every hash function. Two traversals of
one trie agree, since each of them is its list of entries. -/
theorem Built.traversal_exact [BEq ν] (h : Built t) : ExactTraversal t := h.sound.traversal

/-- Two colliding keys beside another one, the calls made on a copy after the first call, and one
call beyond the last entry. -/
theorem Built.traversal_exact_colliding :
    let t : Trie Key Nat := .ofList [(.bucketed 7 1 "a", 1), (.bucketed 7 2 "b", 2), (.int 5, 3)]
    let copied := after next 1 (start t)
    (EquivBEq Key ∧ Built t) ∧
      (after next 1 copied).sizeHint = (1, 1) ∧
      (after next 2 copied).sizeHint = (0, 0) ∧
      (after next 3 copied).sizeHint = (0, 0) ∧
      (after next 2 copied).next.1 = none ∧
      (after nextKey 1 (after nextKey 1 (start t))).nextKey.1 = t.keys[2]? ∧
      (∀ turns, stackWeight copied.stack < turns → loop turns copied = some copied.next) ∧
      ∃ n k, (after next n (start t)).next.1 = some (k, 2) ∧
        sameKey k (.bucketed 7 2 "b again") = true := by
  intro t copied
  have built : Built t := .ofList _
  have traversal := Built.traversal_exact built
  have size : t.size = 3 := by decide +kernel
  have hint : ∀ n, (after next n copied).sizeHint = (3 - min (1 + n) 3, 3 - min (1 + n) 3) := by
    intro n
    rw [← size]
    exact traversal.entries.hint 1 n
  refine ⟨⟨inferInstance, built⟩, hint 1, hint 2, hint 3, ?_, traversal.keys.answer 1 1, ?_, ?_⟩
  · exact (traversal.entries.answer 1 2).trans (by decide +kernel)
  · exact fun turns enough => traversal.terminates 1 0 turns enough
  · obtain ⟨n, k, found, _⟩ := traversal.once (.bucketed 7 2 "b again") 2 (by decide +kernel)
    exact ⟨n, k, found⟩

end ModuleSystem.Trie
