import ModuleSystem.Trie.Bulk

/-! Persistent sets: tries that map each member to the unit value. A member that is there already
keeps its stored form. -/

namespace ModuleSystem

structure TrieSet (κ : Type) where
  trie : Trie κ Unit

namespace TrieSet

variable {κ : Type}

def empty : TrieSet κ := ⟨.empty⟩

instance : Inhabited (TrieSet κ) := ⟨empty⟩

def size (s : TrieSet κ) : Nat := s.trie.size

def isEmpty (s : TrieSet κ) : Bool := s.trie.isEmpty

def toList (s : TrieSet κ) : List κ := s.trie.keys

variable [BEq κ] [Hashable κ]

def contains (s : TrieSet κ) (key : κ) : Bool := s.trie.contains key

def insert (s : TrieSet κ) (key : κ) : TrieSet κ := ⟨s.trie.insert key ()⟩

def remove (s : TrieSet κ) (key : κ) : TrieSet κ := ⟨s.trie.remove key⟩

def insertAll (s : TrieSet κ) (keys : List κ) : TrieSet κ := keys.foldl insert s

def ofList (keys : List κ) : TrieSet κ := empty.insertAll keys

/-- Adds the members of the smaller set to the larger one, to the first one when they are of one
size. -/
def union (a b : TrieSet κ) : TrieSet κ :=
  if a.size < b.size then b.insertAll a.toList else a.insertAll b.toList

instance : BEq (TrieSet κ) := ⟨fun a b => a.trie == b.trie⟩

def contentHash (s : TrieSet κ) : Nat × UInt64 := s.trie.contentHash

end TrieSet
end ModuleSystem
