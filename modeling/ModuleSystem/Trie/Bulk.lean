import ModuleSystem.Trie.Basic

/-! Updates by lists of keys and entries. Each is a fold of single updates, so a list whose single
updates all change nothing gives back the very trie it started from. -/

namespace ModuleSystem.Trie

variable {κ ν : Type} [BEq κ] [Hashable κ]

def removeAll (t : Trie κ ν) (keys : List κ) : Trie κ ν :=
  keys.foldl remove t

variable [BEq ν]

def insertAll (t : Trie κ ν) (entries : List (κ × ν)) : Trie κ ν :=
  entries.foldl (fun t entry => t.insert entry.1 entry.2) t

/-- Collects entries; the last value listed for a key wins. -/
def ofList (entries : List (κ × ν)) : Trie κ ν :=
  empty.insertAll entries

/-- The entries of `t` whose keys are listed, under the keys as listed. -/
def selectKeys (t : Trie κ ν) (keys : List κ) : Trie κ ν :=
  keys.foldl (fun kept key => match t.get? key with
    | some value => kept.insert key value
    | none => kept) empty

/-- One entry of a merge: a key that is there already is combined with the value it has now, and
the pair that was combined goes to the end of the log. -/
def mergeEntry (remap : ν → ν → ν) (state : Trie κ ν × List (ν × ν)) (entry : κ × ν) :
    Trie κ ν × List (ν × ν) :=
  match state.1.get? entry.1 with
  | some existing =>
    (state.1.insert entry.1 (remap existing entry.2), state.2 ++ [(existing, entry.2)])
  | none => (state.1.insert entry.1 entry.2, state.2)

/-- Adds entries to a trie, and lists the pairs that `remap` was asked to combine. -/
def mergeLogged (t : Trie κ ν) (entries : List (κ × ν)) (remap : ν → ν → ν) :
    Trie κ ν × List (ν × ν) :=
  entries.foldl (mergeEntry remap) (t, [])

def mergeWith (t : Trie κ ν) (entries : List (κ × ν)) (remap : ν → ν → ν) : Trie κ ν :=
  (t.mergeLogged entries remap).1

end ModuleSystem.Trie
