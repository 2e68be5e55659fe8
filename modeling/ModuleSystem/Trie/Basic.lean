import ModuleSystem.Trie.Node

/-! Persistent maps as hash tries. An update makes a new trie and leaves the old one as it was.
Equality and content hash see the entries only, never the shape or the order of updates. -/

namespace ModuleSystem

structure Trie (κ ν : Type) where
  root : Trie.Node κ ν
  size : Nat

namespace Trie

variable {κ ν : Type}

def empty : Trie κ ν := ⟨.empty, 0⟩

instance : Inhabited (Trie κ ν) := ⟨empty⟩

def isEmpty (t : Trie κ ν) : Bool := t.size == 0

def toList (t : Trie κ ν) : List (κ × ν) := t.root.toList

def keys (t : Trie κ ν) : List κ := t.toList.map (·.1)

def values (t : Trie κ ν) : List ν := t.toList.map (·.2)

variable [BEq κ] [Hashable κ]

def get? (t : Trie κ ν) (key : κ) : Option ν := t.root.get? 0 (hash key) key

def contains (t : Trie κ ν) (key : κ) : Bool := (t.get? key).isSome

def insert [BEq ν] (t : Trie κ ν) (key : κ) (value : ν) : Trie κ ν :=
  match t.root.insert 0 (hash key) key value with
  | .unchanged => t
  | .replaced root => ⟨root, t.size⟩
  | .added root => ⟨root, t.size + 1⟩

def remove (t : Trie κ ν) (key : κ) : Trie κ ν :=
  match t.root.remove 0 (hash key) key with
  | none => t
  | some root => ⟨root, t.size - 1⟩

/-- Equality by content. -/
instance [BEq ν] : BEq (Trie κ ν) where
  beq a b := a.size == b.size && a.toList.all fun (key, value) => b.get? key == some value

/-- The hash of one entry, mixed so that exchanging the values of two keys changes the sum. -/
def entryHash [Hashable ν] (entry : κ × ν) : UInt64 :=
  (hash entry.1 * 0x100000001b3 ^^^ hash entry.2) * 0x9e3779b97f4a7c15

/-- What a hash of the whole map is made from: its size and the wrapping sum of its entry hashes,
which no order of entries can change. -/
def contentHash [Hashable ν] (t : Trie κ ν) : Nat × UInt64 :=
  (t.size, t.toList.foldl (fun sum entry => sum + entryHash entry) 0)

end Trie
end ModuleSystem
