/-! Nodes of a hash trie. A hash is read as thirteen slices of five bits, lowest first; a branch at
depth `d` keeps one child per value of slice `d` that occurs below it, and a bitmap of those values.
Keys with equal hashes share a collision node. Leaves and collisions may sit at any depth, so a
branch that holds only one of them is replaced by it. -/

namespace ModuleSystem.Trie

inductive Node (κ ν : Type) where
  | empty
  | leaf (hash : UInt64) (key : κ) (value : ν)
  | collision (hash : UInt64) (entries : List (κ × ν))
  | branch (bitmap : BitVec 32) (children : List (Node κ ν))

/-- The number of slices of a hash: the last one holds the remaining four bits. -/
def levels : Nat := 13

def slot (hash : UInt64) (depth : Nat) : Nat :=
  hash.toNat >>> (5 * depth) % 32

def slotBit (s : Nat) : BitVec 32 := BitVec.twoPow 32 s

/-- How many occupied slots lie below `s`: the place of slot `s` among the children. -/
def rank (bitmap : BitVec 32) : Nat → Nat
  | 0 => 0
  | s + 1 => rank bitmap s + (bitmap.getLsbD s).toNat

/-- What an insertion did: nothing, a new value under a key that was there, or a new key. -/
inductive Inserted (α : Type) where
  | unchanged
  | replaced (result : α)
  | added (result : α)

def Inserted.map {α β : Type} (f : α → β) : Inserted α → Inserted β
  | .unchanged => .unchanged
  | .replaced a => .replaced (f a)
  | .added a => .added (f a)

variable {κ ν : Type}

namespace Node

instance : Inhabited (Node κ ν) := ⟨.empty⟩

def isEmpty : Node κ ν → Bool
  | .empty => true
  | _ => false

def isCollapsible : Node κ ν → Bool
  | .leaf .. | .collision .. => true
  | _ => false

mutual
/-- The entries below a node, in slot order. -/
def toList : Node κ ν → List (κ × ν)
  | .empty => []
  | .leaf _ key value => [(key, value)]
  | .collision _ entries => entries
  | .branch _ children => listEntries children

def listEntries : List (Node κ ν) → List (κ × ν)
  | [] => []
  | child :: rest => toList child ++ listEntries rest
end

/-- The smallest subtree at `depth` that holds two nodes with different hashes. The first argument
bounds the slices still to compare; hashes that differ do so in one of them. -/
def joinAt : Nat → Nat → Node κ ν → UInt64 → Node κ ν → UInt64 → Node κ ν
  | 0, _, a, _, _, _ => a
  | more + 1, depth, a, aHash, b, bHash =>
    let aSlot := slot aHash depth
    let bSlot := slot bHash depth
    if aSlot = bSlot then
      .branch (slotBit aSlot) [joinAt more (depth + 1) a aHash b bHash]
    else
      .branch (slotBit aSlot ||| slotBit bSlot) (if aSlot < bSlot then [a, b] else [b, a])

def join (depth : Nat) (a : Node κ ν) (aHash : UInt64) (b : Node κ ν) (bHash : UInt64) :
    Node κ ν :=
  joinAt (levels - depth) depth a aHash b bHash

section Keyed
variable [BEq κ]

mutual
def get? (depth : Nat) (hash : UInt64) (key : κ) : Node κ ν → Option ν
  | .empty => none
  | .leaf leafHash leafKey value =>
    if leafHash = hash ∧ leafKey == key then some value else none
  | .collision sharedHash entries =>
    if sharedHash = hash then (entries.find? (·.1 == key)).map (·.2) else none
  | .branch bitmap children =>
    if bitmap.getLsbD (slot hash depth) then
      getNth? (depth + 1) hash key (rank bitmap (slot hash depth)) children
    else none

def getNth? (depth : Nat) (hash : UInt64) (key : κ) : Nat → List (Node κ ν) → Option ν
  | _, [] => none
  | 0, child :: _ => get? depth hash key child
  | i + 1, _ :: rest => getNth? depth hash key i rest
end

variable [BEq ν]

/-- Insertion into the entries of a collision node: the first entry of an equal key is the only
one, and a new key goes to the end. -/
def insertEntry (key : κ) (value : ν) : List (κ × ν) → Inserted (List (κ × ν))
  | [] => .added [(key, value)]
  | (k, v) :: rest =>
    if k == key then
      if v == value then .unchanged else .replaced ((key, value) :: rest)
    else (insertEntry key value rest).map ((k, v) :: ·)

mutual
/-- Inserts below a node at `depth`. An equal value under an equal key leaves everything as it is,
the stored key included; otherwise key and value are both stored. -/
def insert (depth : Nat) (hash : UInt64) (key : κ) (value : ν) : Node κ ν → Inserted (Node κ ν)
  | .empty => .added (.leaf hash key value)
  | .leaf leafHash leafKey leafValue =>
    if leafHash = hash then
      if leafKey == key then
        if leafValue == value then .unchanged else .replaced (.leaf hash key value)
      else .added (.collision hash [(leafKey, leafValue), (key, value)])
    else
      .added (join depth (.leaf leafHash leafKey leafValue) leafHash (.leaf hash key value) hash)
  | .collision sharedHash entries =>
    if sharedHash = hash then (insertEntry key value entries).map (.collision hash)
    else .added (join depth (.collision sharedHash entries) sharedHash (.leaf hash key value) hash)
  | .branch bitmap children =>
    let s := slot hash depth
    if bitmap.getLsbD s then
      (insertNth (depth + 1) hash key value (rank bitmap s) children).map (.branch bitmap)
    else
      .added (.branch (bitmap ||| slotBit s)
        (children.insertIdx (rank bitmap s) (.leaf hash key value)))

def insertNth (depth : Nat) (hash : UInt64) (key : κ) (value : ν) :
    Nat → List (Node κ ν) → Inserted (List (Node κ ν))
  | _, [] => .unchanged
  | 0, child :: rest => (insert depth hash key value child).map (· :: rest)
  | i + 1, child :: rest => (insertNth depth hash key value i rest).map (child :: ·)
end

/-- A branch over the given children, or the only child if it can stand for the branch. -/
def collapse (bitmap : BitVec 32) : List (Node κ ν) → Node κ ν
  | [] => .empty
  | [child] => if child.isCollapsible then child else .branch bitmap [child]
  | children => .branch bitmap children

/-- The entries of a collision node after a removal; a single one becomes a leaf. -/
def ofEntries (hash : UInt64) : List (κ × ν) → Node κ ν
  | [(key, value)] => .leaf hash key value
  | entries => .collision hash entries

mutual
/-- Removes a key below a node at `depth`; nothing when the key is not there. -/
def remove (depth : Nat) (hash : UInt64) (key : κ) : Node κ ν → Option (Node κ ν)
  | .empty => none
  | .leaf leafHash leafKey _ =>
    if leafHash = hash ∧ leafKey == key then some .empty else none
  | .collision sharedHash entries =>
    if sharedHash = hash ∧ entries.any (·.1 == key) then
      some (ofEntries hash (entries.eraseP (·.1 == key)))
    else none
  | .branch bitmap children =>
    let s := slot hash depth
    if bitmap.getLsbD s then
      match removeNth (depth + 1) hash key (rank bitmap s) children with
      | none => none
      | some rest =>
        if rest.length < children.length then some (collapse (bitmap &&& ~~~slotBit s) rest)
        else some (collapse bitmap rest)
    else none

/-- Removes a key below the child at an index; a child that becomes empty is dropped. -/
def removeNth (depth : Nat) (hash : UInt64) (key : κ) :
    Nat → List (Node κ ν) → Option (List (Node κ ν))
  | _, [] => none
  | 0, child :: rest =>
    (remove depth hash key child).map fun child => if child.isEmpty then rest else child :: rest
  | i + 1, child :: rest => (removeNth depth hash key i rest).map (child :: ·)
end

end Keyed
end Node
end ModuleSystem.Trie
