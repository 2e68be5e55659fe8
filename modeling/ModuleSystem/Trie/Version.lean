import ModuleSystem.Trie.Bulk

/-! Versions of a trie, and which of them share their root node. An update that changes nothing
shares everything. One that changes something makes new nodes on the path to the entry; the node
that holds the entries of one full hash is made anew only by an update of one of these entries. So
after a removal such a node can be the root of a later version again. -/

namespace ModuleSystem.Trie

/-- A trie with the number of the version that last changed it, and for each hash the number of the
version that last changed an entry under it, the latest first. -/
structure Version (κ ν : Type) where
  trie : Trie κ ν
  changed : Nat
  touched : List (UInt64 × Nat)

/-- What tells root nodes apart. -/
inductive RootId where
  | entries (hash : UInt64) (version : Nat)
  | whole (version : Nat)
  deriving DecidableEq

namespace Version

variable {κ ν : Type}

def empty (number : Nat) : Version κ ν := ⟨.empty, number, []⟩

def rootId (v : Version κ ν) : RootId :=
  match v.trie.root with
  | .leaf hash .. | .collision hash .. => .entries hash ((v.touched.lookup hash).getD v.changed)
  | _ => .whole v.changed

def sharesRoot (a b : Version κ ν) : Bool := a.rootId = b.rootId

variable [BEq κ] [Hashable κ]

def update (number : Nat) (v : Version κ ν) (key : κ) (trie : Trie κ ν) : Version κ ν :=
  ⟨trie, number, (hash key, number) :: v.touched⟩

def remove (number : Nat) (v : Version κ ν) (key : κ) : Version κ ν :=
  if v.trie.contains key then v.update number key (v.trie.remove key) else v

variable [BEq ν]

def insert (number : Nat) (v : Version κ ν) (key : κ) (value : ν) : Version κ ν :=
  if v.trie.get? key == some value then v else v.update number key (v.trie.insert key value)

def insertAll (number : Nat) (v : Version κ ν) (entries : List (κ × ν)) : Version κ ν :=
  entries.foldl (fun v entry => v.insert number entry.1 entry.2) v

def removeAll (number : Nat) (v : Version κ ν) (keys : List κ) : Version κ ν :=
  keys.foldl (remove number) v

def selectKeys (number : Nat) (v : Version κ ν) (keys : List κ) : Version κ ν :=
  (empty number).insertAll number
    (keys.filterMap fun key => (v.trie.get? key).map fun value => (key, value))

/-- A merge, as the insertions of the values that it arrives at. -/
def mergeWith (number : Nat) (v : Version κ ν) (entries : List (κ × ν)) (remap : ν → ν → ν) :
    Version κ ν :=
  entries.foldl (fun v entry => v.insert number entry.1
    (match v.trie.get? entry.1 with
      | some existing => remap existing entry.2
      | none => entry.2)) v

end Version
end ModuleSystem.Trie
