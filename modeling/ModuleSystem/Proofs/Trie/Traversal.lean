import ModuleSystem.Proofs.Trie.WellFormed
import ModuleSystem.Trie.Cursor

namespace ModuleSystem.Trie.Cursor

variable {κ ν : Type}

/-- The entries below a stack of nodes. -/
def entriesOf (stack : List (List (Node κ ν))) : List (κ × ν) :=
  stack.flatMap Node.listEntries

/-- The next entry of a stack is the first one below it, and the others stay. -/
theorem nextOf_spec (stack : List (List (Node κ ν))) :
    match nextOf stack with
    | some (entry, stack', rest) => entriesOf stack = entry :: (rest ++ entriesOf stack')
    | none => entriesOf stack = [] := by
  fun_induction nextOf stack with
  | case1 => rfl
  | case2 stack ih => simpa [entriesOf, Node.listEntries] using ih
  | case3 nodes stack ih => simpa [entriesOf, Node.listEntries, Node.toList] using ih
  | case4 hash key value nodes stack => simp [entriesOf, Node.listEntries, Node.toList]
  | case5 hash nodes stack ih => simpa [entriesOf, Node.listEntries, Node.toList] using ih
  | case6 hash entry entries nodes stack => simp [entriesOf, Node.listEntries, Node.toList]
  | case7 bitmap children nodes stack ih =>
    simpa [entriesOf, Node.listEntries, Node.toList] using ih

theorem next_of_left_nil {c : Cursor κ ν} (h : c.left = []) : c.next.1 = none := by
  obtain ⟨stack, pending, remaining⟩ := c
  obtain ⟨rfl, below⟩ := List.append_eq_nil_iff.mp h
  have spec := nextOf_spec stack
  rw [next]
  cases found : nextOf stack with
  | none => rfl
  | some first =>
    rw [found] at spec
    simp [entriesOf, below] at spec

theorem next_of_left_cons {c : Cursor κ ν} {entry : κ × ν} {rest : List (κ × ν)}
    (h : c.left = entry :: rest) : c.next.1 = some entry ∧ c.next.2.left = rest := by
  obtain ⟨stack, pending, remaining⟩ := c
  cases pending with
  | cons first pending =>
    obtain ⟨rfl, rfl⟩ := List.cons.inj h
    exact ⟨rfl, rfl⟩
  | nil =>
    have spec := nextOf_spec stack
    change entriesOf stack = entry :: rest at h
    rw [next]
    cases found : nextOf stack with
    | none => simp [found, h] at spec
    | some first =>
      rw [found, h] at spec
      obtain ⟨rfl, rfl⟩ := List.cons.inj spec
      exact ⟨rfl, rfl⟩

theorem take_entries (n : Nat) (c : Cursor κ ν) : (c.take n).1 = c.left.take n := by
  induction n generalizing c with
  | zero => rfl
  | succ n ih =>
    rw [take]
    cases h : c.left with
    | nil =>
      have none := next_of_left_nil h
      rcases found : c.next with ⟨_ | e, c'⟩
      · rfl
      · simp [found] at none
    | cons entry rest =>
      obtain ⟨first, left⟩ := next_of_left_cons h
      rcases found : c.next with ⟨_ | e, c'⟩
      · simp [found] at first
      · rw [found] at first left
        obtain rfl := Option.some.inj first
        simp [ih, left]

/-- A full traversal yields every entry, in the order of the slots. -/
theorem drain_start (t : Trie κ ν) : (start t).drain.1 = t.toList := by
  rw [drain, take_entries, List.take_of_length_le (Nat.le_succ _)]
  simp [left, start, Node.listEntries, Trie.toList]

end ModuleSystem.Trie.Cursor
