import ModuleSystem.Trie.Basic

/-! Step-by-step traversal of a trie: a stack of the children still to visit in each open branch,
the entries left of an open collision node, and a counter of the entries still to come. -/

namespace ModuleSystem.Trie

variable {κ ν : Type}

structure Cursor (κ ν : Type) where
  stack : List (List (Node κ ν))
  pending : List (κ × ν)
  remaining : Nat

mutual
def Node.weight : Node κ ν → Nat
  | .branch _ children => 2 + listWeight children
  | _ => 1

def Node.listWeight : List (Node κ ν) → Nat
  | [] => 0
  | child :: rest => Node.weight child + Node.listWeight rest
end

/-- Closing a branch, skipping a node and opening a branch each make the stack lighter. -/
def stackWeight : List (List (Node κ ν)) → Nat
  | [] => 0
  | nodes :: rest => 1 + Node.listWeight nodes + stackWeight rest

namespace Cursor

def start (t : Trie κ ν) : Cursor κ ν := ⟨[[t.root]], [], t.size⟩

/-- The next entry of a stack of nodes, with the stack and the collision entries left after it. -/
def nextOf : List (List (Node κ ν)) →
    Option ((κ × ν) × List (List (Node κ ν)) × List (κ × ν))
  | [] => none
  | [] :: stack => nextOf stack
  | (.empty :: nodes) :: stack => nextOf (nodes :: stack)
  | (.leaf _ key value :: nodes) :: stack => some ((key, value), nodes :: stack, [])
  | (.collision _ [] :: nodes) :: stack => nextOf (nodes :: stack)
  | (.collision _ (entry :: entries) :: nodes) :: stack => some (entry, nodes :: stack, entries)
  | (.branch _ children :: nodes) :: stack => nextOf (children :: nodes :: stack)
termination_by stack => stackWeight stack
decreasing_by
  all_goals simp [stackWeight, Node.listWeight, Node.weight]
  all_goals omega

/-- One call for the next entry. Once there is none, there never is one again. -/
def next (c : Cursor κ ν) : Option (κ × ν) × Cursor κ ν :=
  match c.pending with
  | entry :: rest => (some entry, { c with pending := rest, remaining := c.remaining - 1 })
  | [] =>
    match nextOf c.stack with
    | some (entry, stack, rest) => (some entry, ⟨stack, rest, c.remaining - 1⟩)
    | none => (none, ⟨[], [], c.remaining⟩)

/-- One call that keeps a part of the next entry only. -/
def nextPart {α : Type} (part : κ × ν → α) (c : Cursor κ ν) : Option α × Cursor κ ν :=
  let (entry, c) := c.next
  (entry.map part, c)

def nextKey : Cursor κ ν → Option κ × Cursor κ ν := nextPart (·.1)

def nextValue : Cursor κ ν → Option ν × Cursor κ ν := nextPart (·.2)

/-- Both bounds of the number of entries still to come. -/
def sizeHint (c : Cursor κ ν) : Nat × Nat := (c.remaining, c.remaining)

/-- Takes up to `n` entries. -/
def take : Nat → Cursor κ ν → List (κ × ν) × Cursor κ ν
  | 0, c => ([], c)
  | n + 1, c =>
    match c.next with
    | (some entry, c) => let (entries, c) := take n c; (entry :: entries, c)
    | (none, c) => ([], c)

/-- Entries left on a stack. -/
def left (c : Cursor κ ν) : List (κ × ν) :=
  c.pending ++ c.stack.flatMap Node.listEntries

/-- Takes all entries left, by as many calls as there are entries and one more. -/
def drain (c : Cursor κ ν) : List (κ × ν) × Cursor κ ν :=
  c.take (c.left.length + 1)

end Cursor
end ModuleSystem.Trie
