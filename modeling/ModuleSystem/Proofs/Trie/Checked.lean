import ModuleSystem.Proofs.Trie.Reachable

/-! The steps of an operation shift a hash, pick a child by its index and count entries down. Here
each of these steps is checked and may fail, and two nodes are joined without any bound on the
depth. On the tries that can be built no check fails, so the operations do what they do without the
checks. -/

namespace ModuleSystem.Trie

variable {κ ν : Type}

/-- What could go wrong in a step. -/
inductive Fault where
  /-- A hash is shifted by all of its bits or by more. -/
  | shift
  /-- There is no child at an index, or no place for one. -/
  | index
  /-- A count of entries goes below zero. -/
  | underflow

namespace Checked

/-- Five bits of a hash. -/
def slice (hash : UInt64) (shift : Nat) : Nat := (hash >>> UInt64.ofNat shift &&& 0x1f).toNat

def slot (hash : UInt64) (shift : Nat) : Except Fault Nat :=
  if shift < 64 then .ok (slice hash shift) else .error .shift

/-- Goes down for as long as the hashes agree. On equal hashes it would never end by itself. -/
def join (shift : Nat) (a : Node κ ν) (aHash : UInt64) (b : Node κ ν) (bHash : UInt64) :
    Except Fault (Node κ ν) :=
  if shift < 64 then
    let aSlot := slice aHash shift
    let bSlot := slice bHash shift
    if aSlot = bSlot then
      (join (shift + 5) a aHash b bHash).map fun child => .branch (slotBit aSlot) [child]
    else
      .ok (.branch (slotBit aSlot ||| slotBit bSlot) (if aSlot < bSlot then [a, b] else [b, a]))
  else .error .shift
termination_by 64 - shift

section
variable [BEq κ]

mutual
def get? (shift : Nat) (hash : UInt64) (key : κ) : Node κ ν → Except Fault (Option ν)
  | .empty => .ok none
  | .leaf leafHash leafKey value =>
    .ok (if leafHash = hash ∧ leafKey == key then some value else none)
  | .collision sharedHash entries =>
    .ok (if sharedHash = hash then (entries.find? (·.1 == key)).map (·.2) else none)
  | .branch bitmap children => do
    let s ← slot hash shift
    if bitmap.getLsbD s then getNth? (shift + 5) hash key (rank bitmap s) children
    else .ok none

def getNth? (shift : Nat) (hash : UInt64) (key : κ) :
    Nat → List (Node κ ν) → Except Fault (Option ν)
  | _, [] => .error .index
  | 0, child :: _ => get? shift hash key child
  | i + 1, _ :: rest => getNth? shift hash key i rest
end

mutual
def insert [BEq ν] (shift : Nat) (hash : UInt64) (key : κ) (value : ν) :
    Node κ ν → Except Fault (Inserted (Node κ ν))
  | .empty => .ok (.added (.leaf hash key value))
  | .leaf leafHash leafKey leafValue =>
    if leafHash = hash then
      if leafKey == key then
        .ok (if leafValue == value then .unchanged else .replaced (.leaf hash key value))
      else .ok (.added (.collision hash [(leafKey, leafValue), (key, value)]))
    else
      (join shift (.leaf leafHash leafKey leafValue) leafHash (.leaf hash key value) hash).map .added
  | .collision sharedHash entries =>
    if sharedHash = hash then .ok ((Node.insertEntry key value entries).map (.collision hash))
    else
      (join shift (.collision sharedHash entries) sharedHash (.leaf hash key value) hash).map .added
  | .branch bitmap children => do
    let s ← slot hash shift
    if bitmap.getLsbD s then
      (insertNth (shift + 5) hash key value (rank bitmap s) children).map (·.map (.branch bitmap))
    else if rank bitmap s ≤ children.length then
      .ok (.added (.branch (bitmap ||| slotBit s)
        (children.insertIdx (rank bitmap s) (.leaf hash key value))))
    else .error .index

def insertNth [BEq ν] (shift : Nat) (hash : UInt64) (key : κ) (value : ν) :
    Nat → List (Node κ ν) → Except Fault (Inserted (List (Node κ ν)))
  | _, [] => .error .index
  | 0, child :: rest => (insert shift hash key value child).map (·.map (· :: rest))
  | i + 1, child :: rest => (insertNth shift hash key value i rest).map (·.map (child :: ·))
end

mutual
def remove (shift : Nat) (hash : UInt64) (key : κ) :
    Node κ ν → Except Fault (Option (Node κ ν))
  | .empty => .ok none
  | .leaf leafHash leafKey _ =>
    .ok (if leafHash = hash ∧ leafKey == key then some .empty else none)
  | .collision sharedHash entries =>
    .ok (if sharedHash = hash ∧ entries.any (·.1 == key) then
      some (Node.ofEntries hash (entries.eraseP (·.1 == key))) else none)
  | .branch bitmap children => do
    let s ← slot hash shift
    if bitmap.getLsbD s then
      match ← removeNth (shift + 5) hash key (rank bitmap s) children with
      | none => .ok none
      | some rest =>
        if rest.length < children.length then
          .ok (some (Node.collapse (bitmap &&& ~~~slotBit s) rest))
        else .ok (some (Node.collapse bitmap rest))
    else .ok none

def removeNth (shift : Nat) (hash : UInt64) (key : κ) :
    Nat → List (Node κ ν) → Except Fault (Option (List (Node κ ν)))
  | _, [] => .error .index
  | 0, child :: rest => (remove shift hash key child).map
      (·.map fun child => if child.isEmpty then rest else child :: rest)
  | i + 1, child :: rest => (removeNth shift hash key i rest).map (·.map (child :: ·))
end

end

theorem slice_eq {hash : UInt64} {depth : Nat} (room : depth < levels) :
    slice hash (5 * depth) = Trie.slot hash depth := by
  unfold levels at room
  have mask : (0x1f : UInt64).toNat = 2 ^ 5 - 1 := rfl
  have shifted : (UInt64.ofNat (5 * depth)).toNat % 64 = 5 * depth := by
    rw [UInt64.toNat_ofNat']
    omega
  rw [slice, UInt64.toNat_and, mask, Nat.and_two_pow_sub_one_eq_mod, UInt64.toNat_shiftRight,
    shifted]
  rfl

theorem slot_ok {hash : UInt64} {depth : Nat} (room : depth < levels) :
    slot hash (5 * depth) = .ok (Trie.slot hash depth) := by
  rw [slot, slice_eq room]
  unfold levels at room
  exact if_pos (by omega)

/-- Two different hashes that came down one path part below it. -/
theorem join_ok {path : List Nat} {aHash bHash : UInt64} (differ : aHash ≠ bHash)
    (fa : Follows path aHash) (fb : Follows path bHash) (a b : Node κ ν) :
    join (5 * path.length) a aHash b bHash = .ok (Node.join path.length a aHash b bHash) := by
  unfold Node.join
  generalize more_eq : levels - path.length = more
  induction more generalizing path with
  | zero => exact absurd (fa.eq fb (by omega)) differ
  | succ more ih =>
    have room : path.length < levels := by omega
    have small : 5 * path.length < 64 := by
      unfold levels at room
      omega
    rw [join, if_pos small, Node.joinAt, slice_eq room, slice_eq room]
    by_cases same : Trie.slot aHash path.length = Trie.slot bHash path.length
    · have deeper := @ih (path ++ [Trie.slot aHash path.length])
        (follows_snoc.mpr ⟨fa, rfl⟩) (follows_snoc.mpr ⟨fb, same.symm⟩)
        (by rw [List.length_append, List.length_singleton]; omega)
      rw [List.length_append, List.length_singleton] at deeper
      simp only [same, ↓reduceIte]
      rw [show 5 * path.length + 5 = 5 * (path.length + 1) by omega, deeper]
      rfl
    · simp only [same, ↓reduceIte]

section
variable [BEq κ]

theorem getNth?_at (shift : Nat) (hash : UInt64) (key : κ) (before after : List (Node κ ν))
    (child : Node κ ν) :
    getNth? shift hash key before.length (before ++ child :: after) =
      get? shift hash key child := by
  induction before with
  | nil => rfl
  | cons first before ih => exact ih

theorem insertNth_at [BEq ν] (shift : Nat) (hash : UInt64) (key : κ) (value : ν)
    (before after : List (Node κ ν)) (child : Node κ ν) :
    insertNth shift hash key value before.length (before ++ child :: after) =
      (insert shift hash key value child).map
        (·.map fun child => before ++ child :: after) := by
  induction before with
  | nil => rfl
  | cons first before ih =>
    simp only [List.length_cons, List.cons_append, insertNth, ih]
    cases insert shift hash key value child with
    | error fault => rfl
    | ok result => cases result <;> rfl

theorem removeNth_at (shift : Nat) (hash : UInt64) (key : κ) (before after : List (Node κ ν))
    (child : Node κ ν) :
    removeNth shift hash key before.length (before ++ child :: after) =
      (remove shift hash key child).map (·.map fun child =>
        if child.isEmpty then before ++ after else before ++ child :: after) := by
  induction before with
  | nil => rfl
  | cons first before ih =>
    simp only [List.length_cons, List.cons_append, removeNth, ih]
    cases remove shift hash key child with
    | error fault => rfl
    | ok result =>
      cases result with
      | none => rfl
      | some child => cases child <;> rfl

variable [Hashable κ]

theorem get?_ok {path : List Nat} {n : Node κ ν} (h : WellFormed path n) (hash : UInt64)
    (key : κ) :
    get? (5 * path.length) hash key n = .ok (n.get? path.length hash key) := by
  induction h with
  | leaf => simp only [get?, Node.get?]
  | collision => simp only [get?, Node.get?]
  | @branch path bitmap children depth count placed needed ih =>
    simp only [get?, Node.get?, slot_ok depth, bind, Except.bind]
    by_cases taken : bitmap.getLsbD (Trie.slot hash path.length) = true
    · obtain ⟨before, child, after, rfl, place, mem⟩ :=
        (WellFormed.branch depth count placed needed).child (slot_lt _ _) taken
      have below := ih _ mem
      rw [List.length_append, List.length_singleton, Nat.mul_succ] at below
      simp only [taken, if_true, ← place, getNth?_at, Trie.getNth?_at, below]
    · rw [if_neg taken, if_neg taken]

theorem insert_ok [BEq ν] {path : List Nat} {n : Node κ ν} (h : WellFormed path n) {hash : UInt64}
    (leads : Follows path hash) (key : κ) (value : ν) :
    insert (5 * path.length) hash key value n = .ok (n.insert path.length hash key value) := by
  induction h with
  | @leaf path h k v keyHash below =>
    simp only [insert, Node.insert]
    by_cases shared : h = hash
    · cases same : k == key <;> simp [shared]
    · rw [if_neg shared, if_neg shared, join_ok shared below leads]
      rfl
  | @collision path h entries keyHash below several distinct =>
    simp only [insert, Node.insert]
    by_cases shared : h = hash
    · rw [if_pos shared, if_pos shared]
    · rw [if_neg shared, if_neg shared, join_ok shared below leads]
      rfl
  | @branch path bitmap children depth count placed needed ih =>
    simp only [insert, Node.insert, slot_ok depth, bind, Except.bind]
    by_cases taken : bitmap.getLsbD (Trie.slot hash path.length) = true
    · obtain ⟨before, child, after, rfl, place, mem⟩ :=
        (WellFormed.branch depth count placed needed).child (slot_lt _ _) taken
      have below := ih _ mem (follows_snoc.mpr ⟨leads, rfl⟩)
      rw [List.length_append, List.length_singleton, Nat.mul_succ] at below
      simp only [taken, if_true, ← place, insertNth_at, Trie.insertNth_at, below]
      rfl
    · have room : rank bitmap (Trie.slot hash path.length) ≤ children.length := by
        rw [← count, occupied_of_clear (slot_lt _ _) (by simpa using taken), List.length_append,
          length_occupiedBelow]
        omega
      rw [if_neg taken, if_neg taken, if_pos room]

theorem remove_ok {path : List Nat} {n : Node κ ν} (h : WellFormed path n) (hash : UInt64)
    (key : κ) :
    remove (5 * path.length) hash key n = .ok (n.remove path.length hash key) := by
  induction h with
  | leaf => simp only [remove, Node.remove]
  | collision => simp only [remove, Node.remove]
  | @branch path bitmap children depth count placed needed ih =>
    simp only [remove, Node.remove, slot_ok depth, bind, Except.bind]
    by_cases taken : bitmap.getLsbD (Trie.slot hash path.length) = true
    · obtain ⟨before, child, after, rfl, place, mem⟩ :=
        (WellFormed.branch depth count placed needed).child (slot_lt _ _) taken
      have below := ih _ mem
      rw [List.length_append, List.length_singleton, Nat.mul_succ] at below
      simp only [taken, if_true, ← place, removeNth_at, Trie.removeNth_at, below, Except.map]
      cases child.remove (path.length + 1) hash key with
      | none => rfl
      | some new =>
        simp only [Option.map_some]
        split <;> split <;> rfl
    · rw [if_neg taken, if_neg taken]

end
end Checked

section
variable [BEq κ] [Hashable κ]

def getChecked (t : Trie κ ν) (key : κ) : Except Fault (Option ν) :=
  Checked.get? 0 (hash key) key t.root

def removeChecked (t : Trie κ ν) (key : κ) : Except Fault (Trie κ ν) := do
  match ← Checked.remove 0 (hash key) key t.root with
  | none => .ok t
  | some root => if t.size = 0 then .error .underflow else .ok ⟨root, t.size - 1⟩

variable [BEq ν]

def insertChecked (t : Trie κ ν) (key : κ) (value : ν) : Except Fault (Trie κ ν) := do
  match ← Checked.insert 0 (hash key) key value t.root with
  | .unchanged => .ok t
  | .replaced root => .ok ⟨root, t.size⟩
  | .added root => .ok ⟨root, t.size + 1⟩

/-- One key of a selection from `t`. -/
def selectChecked (t kept : Trie κ ν) (key : κ) : Except Fault (Trie κ ν) := do
  match ← t.getChecked key with
  | some value => kept.insertChecked key value
  | none => .ok kept

/-- One entry of a merge. -/
def mergeChecked (remap : ν → ν → ν) (t : Trie κ ν) (entry : κ × ν) : Except Fault (Trie κ ν) := do
  match ← t.getChecked entry.1 with
  | some existing => t.insertChecked entry.1 (remap existing entry.2)
  | none => t.insertChecked entry.1 entry.2

end

namespace Cursor

/-- One call for the next entry. -/
def nextChecked (c : Cursor κ ν) : Except Fault (Option (κ × ν) × Cursor κ ν) :=
  match c.next with
  | (some entry, rest) => if c.remaining = 0 then .error .underflow else .ok (some entry, rest)
  | (none, rest) => .ok (none, rest)

def takeChecked : Nat → Cursor κ ν → Except Fault (List (κ × ν) × Cursor κ ν)
  | 0, c => .ok ([], c)
  | n + 1, c => do
    match ← c.nextChecked with
    | (some entry, c) => (takeChecked n c).map fun (entries, c) => (entry :: entries, c)
    | (none, c) => .ok ([], c)

end Cursor

/-- A fold of checked steps is the fold of the steps, if each of them is from where `P` holds. -/
theorem foldlM_ok {α σ τ : Type} {P : σ → Prop} {f : τ → α → Except Fault τ} {g : σ → α → σ}
    (out : σ → τ) (step : ∀ s a, P s → f (out s) a = .ok (out (g s a)) ∧ P (g s a)) (l : List α)
    {s : σ} (h : P s) : l.foldlM f (out s) = .ok (out (l.foldl g s)) := by
  induction l generalizing s with
  | nil => rfl
  | cons a l ih =>
    obtain ⟨first, kept⟩ := step s a h
    simp only [List.foldlM_cons, List.foldl_cons, first, bind, Except.bind]
    exact ih kept

namespace Cursor

/-- The counter is right after each call. -/
theorem next_counted {c : Cursor κ ν} (h : c.remaining = c.left.length) :
    c.nextChecked = .ok c.next ∧ (c.next.1.isSome → c.next.2.remaining = c.next.2.left.length) := by
  unfold nextChecked
  cases entries : c.left with
  | nil =>
    have none := next_of_left_nil entries
    rcases result : c.next with ⟨_ | entry, rest⟩
    · exact ⟨rfl, fun some => by cases some⟩
    · rw [result] at none
      cases none
  | cons entry rest =>
    obtain ⟨first, later⟩ := next_of_left_cons entries
    rw [entries, List.length_cons] at h
    have counted : c.next.2.remaining = c.remaining - 1 := by
      obtain ⟨stack, pending, remaining⟩ := c
      cases pending with
      | cons => rfl
      | nil =>
        rw [next] at first ⊢
        cases found : nextOf stack with
        | none => simp [found] at first
        | some => rfl
    rcases result : c.next with ⟨_ | found, after⟩
    · rw [result] at first
      cases first
    · rw [result] at later counted
      constructor
      · simp only [h, Nat.succ_ne_zero, ↓reduceIte]
      · intro _
        rw [counted, later]
        omega

theorem takeChecked_eq (n : Nat) {c : Cursor κ ν} (h : c.remaining = c.left.length) :
    c.takeChecked n = .ok (c.take n) := by
  induction n generalizing c with
  | zero => rfl
  | succ n ih =>
    obtain ⟨checked, counted⟩ := next_counted h
    simp only [takeChecked, take, checked, bind, Except.bind]
    rcases result : c.next with ⟨_ | entry, rest⟩
    · rfl
    · rw [result] at counted
      simp only [ih (counted rfl)]
      rfl

end Cursor

section
variable [BEq κ] [Hashable κ] {t : Trie κ ν}

namespace Sound

theorem getChecked_eq (h : Sound t) (key : κ) : t.getChecked key = .ok (t.get? key) := by
  unfold getChecked Trie.get?
  obtain empty | wf := h.root
  · rw [empty, Checked.get?, Node.get?]
  · exact Checked.get?_ok wf (hash key) key

theorem removeChecked_eq (h : Sound t) (key : κ) : t.removeChecked key = .ok (t.remove key) := by
  unfold removeChecked Trie.remove
  obtain empty | wf := h.root
  · rw [empty, Checked.remove, Node.remove]
    rfl
  · have checked := Checked.remove_ok wf (hash key) key
    simp only [List.length_nil, Nat.mul_zero] at checked
    have counted : t.size ≠ 0 := by
      intro zero
      obtain ⟨e, he⟩ := wf.exists_entry
      have size := h.size
      rw [zero, Trie.toList, eq_comm, List.length_eq_zero_iff] at size
      rw [size] at he
      cases he
    rw [checked]
    simp only [bind, Except.bind]
    cases t.root.remove 0 (hash key) key with
    | none => rfl
    | some root => exact if_neg counted

variable [BEq ν]

theorem insertChecked_eq (h : Sound t) (key : κ) (value : ν) :
    t.insertChecked key value = .ok (t.insert key value) := by
  unfold insertChecked Trie.insert
  obtain empty | wf := h.root
  · rw [empty, Checked.insert, Node.insert]
    rfl
  · have checked := Checked.insert_ok wf (follows_nil (hash key)) key value
    simp only [List.length_nil, Nat.mul_zero] at checked
    rw [checked]
    simp only [bind, Except.bind]
    cases t.root.insert 0 (hash key) key value <;> rfl

theorem selectChecked_eq (h : Sound t) {kept : Trie κ ν} (h' : Sound kept) (key : κ) :
    t.selectChecked kept key = .ok (match t.get? key with
      | some value => kept.insert key value
      | none => kept) := by
  unfold selectChecked
  rw [h.getChecked_eq]
  simp only [bind, Except.bind]
  cases t.get? key with
  | none => rfl
  | some value => exact h'.insertChecked_eq key value

theorem mergeChecked_eq {state : Trie κ ν × List (ν × ν)} (h : Sound state.1) (remap : ν → ν → ν)
    (entry : κ × ν) :
    mergeChecked remap state.1 entry = .ok (Trie.mergeEntry remap state entry).1 := by
  unfold mergeChecked Trie.mergeEntry
  rw [h.getChecked_eq]
  simp only [bind, Except.bind]
  cases state.1.get? entry.1 with
  | none => exact h.insertChecked_eq _ _
  | some existing => exact h.insertChecked_eq _ _

end Sound

/-- No check fails in any operation on a trie. For the empty trie, `insertAll` is `ofList`. -/
structure Safe [BEq ν] (t : Trie κ ν) : Prop where
  get? : ∀ key, t.getChecked key = .ok (t.get? key)
  insert : ∀ key value, t.insertChecked key value = .ok (t.insert key value)
  remove : ∀ key, t.removeChecked key = .ok (t.remove key)
  insertAll : ∀ entries : List (κ × ν),
    entries.foldlM (fun t entry => t.insertChecked entry.1 entry.2) t = .ok (t.insertAll entries)
  removeAll : ∀ keys : List κ, keys.foldlM removeChecked t = .ok (t.removeAll keys)
  selectKeys : ∀ keys : List κ, keys.foldlM t.selectChecked .empty = .ok (t.selectKeys keys)
  mergeWith : ∀ (entries : List (κ × ν)) (remap : ν → ν → ν),
    entries.foldlM (mergeChecked remap) t = .ok (t.mergeWith entries remap)
  traversal : ∀ n, (Cursor.start t).takeChecked n = .ok ((Cursor.start t).take n)

variable [EquivBEq κ] [BEq ν]

theorem Sound.safe (h : Sound t) : t.Safe where
  get? := h.getChecked_eq
  insert := h.insertChecked_eq
  remove := h.removeChecked_eq
  insertAll entries := by
    refine foldlM_ok (P := Sound) id (fun s e hs => ?_) entries h
    exact ⟨hs.insertChecked_eq e.1 e.2, hs.insert e.1 e.2⟩
  removeAll keys := by
    refine foldlM_ok (P := Sound) id (fun s key hs => ?_) keys h
    exact ⟨hs.removeChecked_eq key, hs.remove key⟩
  selectKeys keys := by
    refine foldlM_ok (P := Sound) id (fun kept key hs => ?_) keys sound_empty
    exact ⟨h.selectChecked_eq hs key, hs.selectStep t key⟩
  mergeWith entries remap := by
    refine foldlM_ok (P := fun state => Sound state.1) Prod.fst (fun state e hs => ?_) entries
      (s := (t, [])) h
    exact ⟨hs.mergeChecked_eq remap e, hs.mergeEntry remap e⟩
  traversal n := by
    apply Cursor.takeChecked_eq
    rw [Cursor.left, Cursor.start, h.size, Trie.toList]
    simp [Node.listEntries]

/-- What every node of a trie keeps, whatever operations built it, and with it that no operation
shifts a hash too far, misses a child, joins without end or counts below zero. -/
theorem Built.never_faults (h : Built t) : t.Invariant ∧ t.Safe :=
  ⟨h.sound.invariant, h.sound.safe⟩

end

theorem Built.never_faults_colliding :
    let a : Key := .bucketed 7 1 "a"
    let b : Key := .bucketed 7 2 "b"
    let t : Trie Key Nat := ((Trie.ofList [(a, 1), (b, 2), (.int 5, 3)]).mergeWith
      [(b, 4), (.text "new", 5)] (· + ·)).removeAll [.int 5]
    EquivBEq Key ∧ Built t ∧ t.Invariant ∧ t.Safe := by
  intro a b t
  have built : Built t := ((Built.ofList _).mergeWith _ _).removeAll _
  exact ⟨inferInstance, built, built.never_faults⟩

end ModuleSystem.Trie
