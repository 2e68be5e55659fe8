import ModuleSystem.Proofs.Trie.Lookups
import ModuleSystem.Proofs.Trie.Shape
import ModuleSystem.Trie.Version

namespace ModuleSystem.Trie

variable {κ ν : Type}

/-- The values listed for a key; `same` says which keys are one. -/
def incoming (same : κ → κ → Bool) (key : κ) (entries : List (κ × ν)) : List ν :=
  (entries.filter fun e => same e.1 key).map (·.2)

/-- Values combined from left to right, beginning with the first of them if there is no other. -/
def combined (remap : ν → ν → ν) : Option ν → List ν → Option ν
  | some start, values => some (values.foldl remap start)
  | none, [] => none
  | none, first :: values => some (values.foldl remap first)

theorem combined_append (remap : ν → ν → ν) (start : Option ν) (values more : List ν) :
    combined remap start (values ++ more) =
      combined remap (combined remap start values) more := by
  cases start with
  | some start => simp only [combined, List.foldl_append]
  | none =>
    cases values with
    | nil => rfl
    | cons first values => simp only [List.cons_append, combined, List.foldl_append]

/-- Where the later value always wins, it is the last one. -/
theorem combined_last (start : Option ν) (values : List ν) :
    combined (fun _ value => value) start values = values.getLast?.or start := by
  induction values using List.reverseRecOn with
  | nil => cases start <;> rfl
  | append_singleton values value ih =>
    rw [combined_append, List.getLast?_concat, Option.some_or]
    cases combined (fun _ value => value) start values <;> rfl

theorem incoming_append (same : κ → κ → Bool) (key : κ) (entries more : List (κ × ν)) :
    incoming same key (entries ++ more) = incoming same key entries ++ incoming same key more := by
  rw [incoming, List.filter_append, List.map_append, incoming, incoming]

theorem incoming_singleton (same : κ → κ → Bool) (key : κ) (e : κ × ν) :
    incoming same key [e] = if same e.1 key then [e.2] else [] := by
  rw [incoming, List.filter_singleton]
  cases same e.1 key <;> rfl

section
variable [BEq κ] [Hashable κ]

/-- The calls of a merge: one for each entry whose key is in the trie or earlier in the list, with
the value that the key has by then. -/
def calls (same : κ → κ → Bool) (t : Trie κ ν) (entries : List (κ × ν)) (remap : ν → ν → ν) :
    List (ν × ν) :=
  entries.zipIdx.filterMap fun (e, i) =>
    (combined remap (t.get? e.1) (incoming same e.1 (entries.take i))).map (·, e.2)

theorem calls_append (same : κ → κ → Bool) (t : Trie κ ν) (entries : List (κ × ν)) (e : κ × ν)
    (remap : ν → ν → ν) :
    calls same t (entries ++ [e]) remap = calls same t entries remap ++
      ((combined remap (t.get? e.1) (incoming same e.1 entries)).map (·, e.2)).toList := by
  rw [calls, List.zipIdx_append, List.filterMap_append, calls]
  congr 1
  · apply List.filterMap_congr
    rintro ⟨e', i⟩ mem
    have early : i < entries.length := by simpa using (List.mem_zipIdx mem).2.1
    simp only [List.take_append_of_le_length (Nat.le_of_lt early)]
  · simp only [List.zipIdx_singleton, Nat.zero_add, List.filterMap_cons, List.filterMap_nil,
      List.take_left]
    cases combined remap (t.get? e.1) (incoming same e.1 entries) <;> rfl

/-- The insertion that an entry of a merge leads to. -/
def mergeUpdate (remap : ν → ν → ν) (t : Trie κ ν) (e : κ × ν) : Update κ ν :=
  .insert e.1 (match t.get? e.1 with
    | some existing => remap existing e.2
    | none => e.2)

variable [BEq ν] {t : Trie κ ν}

theorem mergeEntry_fst (remap : ν → ν → ν) (state : Trie κ ν × List (ν × ν)) (e : κ × ν) :
    (mergeEntry remap state e).1 = state.1.apply (mergeUpdate remap state.1 e) := by
  rw [mergeEntry, mergeUpdate, apply]
  cases state.1.get? e.1 <;> rfl

theorem mergeEntry_snd (remap : ν → ν → ν) (state : Trie κ ν × List (ν × ν)) (e : κ × ν) :
    (mergeEntry remap state e).2 = state.2 ++ ((state.1.get? e.1).map (·, e.2)).toList := by
  rw [mergeEntry]
  cases state.1.get? e.1 <;> simp

theorem mergeLogged_append (entries : List (κ × ν)) (e : κ × ν) (remap : ν → ν → ν) :
    t.mergeLogged (entries ++ [e]) remap = mergeEntry remap (t.mergeLogged entries remap) e := by
  rw [mergeLogged, List.foldl_append]
  rfl

theorem mergeWith_append (entries : List (κ × ν)) (e : κ × ν) (remap : ν → ν → ν) :
    t.mergeWith (entries ++ [e]) remap =
      (t.mergeWith entries remap).apply (mergeUpdate remap (t.mergeWith entries remap) e) := by
  rw [mergeWith, mergeLogged_append, mergeEntry_fst, mergeWith]

theorem mergeWith_eq_foldl (entries : List (κ × ν)) (remap : ν → ν → ν) :
    t.mergeWith entries remap =
      entries.foldl (fun t e => t.apply (mergeUpdate remap t e)) t := by
  induction entries using List.reverseRecOn with
  | nil => rfl
  | append_singleton entries e ih => rw [mergeWith_append, List.foldl_append, ← ih]; rfl

theorem insertAll_eq_mergeWith (entries : List (κ × ν)) :
    t.insertAll entries = t.mergeWith entries fun _ value => value := by
  rw [mergeWith_eq_foldl, insertAll]
  congr 1
  funext t e
  rw [mergeUpdate, apply]
  cases t.get? e.1 <;> rfl

/-- The listed keys that are in the trie, each with its value there. -/
def present (t : Trie κ ν) (keys : List κ) : List (κ × ν) :=
  keys.filterMap fun key => (t.get? key).map (key, ·)

omit [BEq ν] in
theorem mem_present {keys : List κ} {e : κ × ν} (mem : e ∈ t.present keys) :
    t.get? e.1 = some e.2 := by
  obtain ⟨key, _, listed⟩ := List.mem_filterMap.mp mem
  obtain ⟨value, found, rfl⟩ := Option.map_eq_some_iff.mp listed
  exact found

theorem selectKeys_eq_insertAll (keys : List κ) :
    t.selectKeys keys = Trie.empty.insertAll (t.present keys) := by
  rw [selectKeys, insertAll, present, List.foldl_filterMap]
  congr 1
  funext kept key
  cases t.get? key <;> rfl

/-- Only the calls that are noted count for a merge. -/
theorem mergeLogged_congr {entries : List (κ × ν)} {remap remap' : ν → ν → ν}
    (agree : ∀ call ∈ (t.mergeLogged entries remap).2, remap' call.1 call.2 = remap call.1 call.2) :
    t.mergeLogged entries remap' = t.mergeLogged entries remap := by
  induction entries using List.reverseRecOn with
  | nil => rfl
  | append_singleton entries e ih =>
    rw [mergeLogged_append, mergeEntry_snd] at agree
    have earlier := ih fun call mem => agree call (List.mem_append_left _ mem)
    rw [mergeLogged_append, mergeLogged_append, earlier, mergeEntry, mergeEntry]
    cases found : (t.mergeLogged entries remap).1.get? e.1 with
    | none => rfl
    | some existing =>
      have last := agree (existing, e.2) (by simp [found])
      simp only [last]

omit [BEq ν] in
theorem removeAll_append (keys : List κ) (key : κ) :
    t.removeAll (keys ++ [key]) = (t.removeAll keys).remove key := by
  rw [removeAll, List.foldl_append]
  rfl

omit [BEq κ] [Hashable κ] [BEq ν] in
theorem foldl_eq_self {σ α : Type} {step : σ → α → σ} {s : σ} {l : List α}
    (idle : ∀ before a after, l = before ++ a :: after →
      step (before.foldl step s) a = before.foldl step s) : l.foldl step s = s := by
  induction l using List.reverseRecOn with
  | nil => rfl
  | append_singleton l a ih =>
    have earlier := ih fun before b after split => idle before b (after ++ [a]) (by simp [split])
    rw [List.foldl_append, List.foldl_cons, List.foldl_nil, idle l a [] rfl, earlier]

/-- No single insertion of the merge changes anything. -/
def IdleMerge (t : Trie κ ν) (entries : List (κ × ν)) (remap : ν → ν → ν) : Prop :=
  ∀ before e after, entries = before ++ e :: after →
    (t.mergeWith before remap).outcome (mergeUpdate remap (t.mergeWith before remap) e) = .unchanged

/-- No single key is found and removed. -/
def IdleRemoval (t : Trie κ ν) (keys : List κ) : Prop :=
  ∀ before key after, keys = before ++ key :: after →
    (t.removeAll before).outcome (.remove key) = .notFound

theorem IdleMerge.mergeWith_eq {entries : List (κ × ν)} {remap : ν → ν → ν}
    (idle : t.IdleMerge entries remap) : t.mergeWith entries remap = t := by
  rw [mergeWith_eq_foldl]
  apply foldl_eq_self
  intro before e after split
  rw [← mergeWith_eq_foldl]
  exact insert_eq_self_of_outcome (idle before e after split)

theorem IdleRemoval.removeAll_eq {keys : List κ} (idle : t.IdleRemoval keys) :
    t.removeAll keys = t :=
  foldl_eq_self fun before key after split =>
    remove_eq_self_of_outcome (idle before key after split)

namespace Sound

variable [EquivBEq κ]

theorem contains_insert [LawfulBEq ν] (h : Sound t) (key : κ) (value : ν) (k : κ) :
    (t.insert key value).contains k = (sameKey key k || t.contains k) := by
  rw [Trie.contains, h.get?_insert, Trie.contains]
  cases sameKey key k <;> rfl

omit [BEq ν] in
theorem contains_congr (h : Sound t) {key k : κ} (same : sameKey key k = true) :
    t.contains key = t.contains k := by
  rw [Trie.contains, h.get?_congr same, Trie.contains]

/-- Insertions count the keys that are new, each of them once. -/
theorem size_foldl_insert [LawfulBEq ν] {α : Type} (key : α → κ) (value : Trie κ ν → α → ν)
    (h : Sound t) (l : List α) :
    (l.foldl (fun t a => t.insert (key a) (value t a)) t).size =
      t.size + (((l.map key).filter (!t.contains ·)).eraseDupsBy sameKey).length := by
  induction l generalizing t with
  | nil => rfl
  | cons a l ih =>
    rw [List.foldl_cons, ih (h.insert _ _), h.size_insert, List.map_cons]
    simp only [h.contains_insert]
    by_cases there : t.contains (key a) = true
    · have same : ∀ k, (sameKey (key a) k || t.contains k) = t.contains k := by
        intro k
        by_cases same : sameKey (key a) k = true
        · rw [same, Bool.true_or, ← h.contains_congr same, there]
        · simp [same]
      simp only [same, there, if_true, List.filter_cons, Bool.not_true, Bool.false_eq_true,
        if_false]
    · have new : (!t.contains (key a)) = true := by simpa using there
      rw [if_neg there, List.filter_cons, if_pos new, List.eraseDupsBy_cons, List.length_cons,
        List.filter_filter]
      have others : (fun k => !(sameKey (key a) k || t.contains k)) =
          fun k => decide (sameKey k (key a) = false) && !t.contains k := by
        funext k
        rw [sameKey_comm k]
        cases sameKey (key a) k <;> cases t.contains k <;> rfl
      rw [others]
      omega

section
variable [LawfulBEq ν]

theorem get?_mergeWith (h : Sound t) (entries : List (κ × ν)) (remap : ν → ν → ν) (key : κ) :
    (t.mergeWith entries remap).get? key =
      combined remap (t.get? key) (incoming sameKey key entries) := by
  induction entries using List.reverseRecOn with
  | nil =>
    rw [Trie.mergeWith, mergeLogged, List.foldl_nil, incoming, List.filter_nil, List.map_nil]
    cases t.get? key <;> rfl
  | append_singleton entries e ih =>
    have before := h.mergeWith entries remap
    rw [mergeWith_append, mergeUpdate, apply, before.get?_insert, incoming_append,
      incoming_singleton, combined_append, ← ih]
    by_cases same : sameKey e.1 key = true
    · rw [if_pos same, if_pos same, before.get?_congr same]
      cases (t.mergeWith entries remap).get? key <;> rfl
    · rw [if_neg same, if_neg same]
      cases (t.mergeWith entries remap).get? key <;> rfl

theorem mergeLogged_snd (h : Sound t) (entries : List (κ × ν)) (remap : ν → ν → ν) :
    (t.mergeLogged entries remap).2 = calls sameKey t entries remap := by
  induction entries using List.reverseRecOn with
  | nil => rfl
  | append_singleton entries e ih =>
    rw [mergeLogged_append, mergeEntry_snd, ih, calls_append, ← Trie.mergeWith,
      h.get?_mergeWith]

theorem size_mergeWith (h : Sound t) (entries : List (κ × ν)) (remap : ν → ν → ν) :
    (t.mergeWith entries remap).size = t.size +
      (((entries.map (·.1)).filter (!t.contains ·)).eraseDupsBy sameKey).length := by
  rw [mergeWith_eq_foldl]
  exact h.size_foldl_insert _ _ entries

end

section
variable [LawfulBEq ν]

/-- Entries that say the same wherever they have one key are put in as they come, the first one of
each new key. -/
theorem toList_insertAll (h : Sound t) {entries : List (κ × ν)}
    (agree : ∀ e ∈ entries, ∀ value, t.get? e.1 = some value → value = e.2)
    (agree' : ∀ e ∈ entries, ∀ e' ∈ entries, sameKey e.1 e'.1 = true → e.2 = e'.2) :
    (t.insertAll entries).toList.Perm (t.toList ++
      (entries.filter fun e => !t.contains e.1).eraseDupsBy fun a b => sameKey a.1 b.1) := by
  induction entries generalizing t with
  | nil => simp [Trie.insertAll]
  | cons e entries ih =>
    rw [List.forall_mem_cons] at agree
    have within : ∀ a ∈ entries, ∀ b ∈ entries, sameKey a.1 b.1 = true → a.2 = b.2 :=
      fun a ha b hb => agree' a (List.mem_cons_of_mem _ ha) b (List.mem_cons_of_mem _ hb)
    have step : t.insertAll (e :: entries) = (t.insert e.1 e.2).insertAll entries := rfl
    rw [step]
    cases found : t.get? e.1 with
    | some old =>
      have there : (!t.contains e.1) = false := by rw [Trie.contains, found]; rfl
      have kept : t.insert e.1 e.2 = t := h.insert_eq_self found (by simp [agree.1 old found])
      rw [kept, List.filter_cons, there]
      exact ih h agree.2 within
    | none =>
      have new : (!t.contains e.1) = true := by rw [Trie.contains, found]; rfl
      have agree_new : ∀ a ∈ entries, ∀ value, (t.insert e.1 e.2).get? a.1 = some value →
          value = a.2 := by
        intro a ha value stored
        rw [h.get?_insert] at stored
        split at stored
        · next same =>
          cases stored
          exact agree' e List.mem_cons_self a (List.mem_cons_of_mem _ ha) same
        · exact agree.2 a ha value stored
      have others : (fun a : κ × ν => !(t.insert e.1 e.2).contains a.1) =
          fun a => decide (sameKey a.1 e.1 = false) && !t.contains a.1 := by
        funext a
        rw [h.contains_insert, sameKey_comm a.1]
        cases sameKey e.1 a.1 <;> cases t.contains a.1 <;> rfl
      have rest := ih (h.insert e.1 e.2) agree_new within
      rw [others, ← List.filter_filter] at rest
      rw [List.filter_cons, if_pos new, List.eraseDupsBy_cons]
      refine rest.trans ?_
      rw [← List.singleton_append, ← List.append_assoc]
      exact (h.toList_insert found).append_right _

theorem toList_selectKeys (h : Sound t) (keys : List κ) :
    (t.selectKeys keys).toList.Perm
      ((t.present keys).eraseDupsBy fun a b => sameKey a.1 b.1) := by
  have agree : ∀ e ∈ t.present keys, ∀ e' ∈ t.present keys,
      sameKey e.1 e'.1 = true → e.2 = e'.2 := by
    intro e he e' he' same
    have values := (mem_present he).symm.trans ((h.get?_congr same).trans (mem_present he'))
    exact Option.some.inj values
  have whole := sound_empty.toList_insertAll (by simp) agree
  rw [selectKeys_eq_insertAll]
  simpa [contains_empty] using whole

theorem get?_selectKeys (h : Sound t) (keys : List κ) (key : κ) :
    (t.selectKeys keys).get? key = if keys.any (sameKey · key) then t.get? key else none := by
  induction keys using List.reverseRecOn with
  | nil => rfl
  | append_singleton keys k ih =>
    have step : t.selectKeys (keys ++ [k]) = match t.get? k with
        | some value => (t.selectKeys keys).insert k value
        | none => t.selectKeys keys := by
      rw [Trie.selectKeys, List.foldl_append]
      rfl
    have last : (keys ++ [k]).any (sameKey · key) =
        (sameKey k key || keys.any (sameKey · key)) := by
      rw [List.any_append, Bool.or_comm, List.any_cons, List.any_nil, Bool.or_false]
    rw [step, last]
    cases found : t.get? k with
    | some value =>
      simp only []
      rw [(Sound.selectKeys t keys).get?_insert, ih]
      by_cases same : sameKey k key = true
      · simp [same, ← h.get?_congr same, found]
      · simp [same]
    | none =>
      simp only []
      rw [ih]
      by_cases same : sameKey k key = true
      · simp [same, ← h.get?_congr same, found]
      · simp [same]

end

theorem toList_removeAll (h : Sound t) (keys : List κ) :
    (t.removeAll keys).toList.Perm (t.toList.filter fun e => !keys.any (sameKey e.1 ·)) := by
  have left := @Represents.removeAll κ ν (bySameKey κ) _ t equivBEq_bySameKey
    lawfulHashable_bySameKey _ t.toList h.represents keys
  rw [h.removeAll_bySameKey] at left
  exact @Represents.entries κ ν (bySameKey κ) _ _ _ left

end Sound

namespace Version

section
variable [EquivBEq κ] {v : Version κ ν}

theorem remove_eq_self (h : Sound v.trie) (n : Nat) {key : κ}
    (absent : v.trie.outcome (.remove key) = .notFound) : v.remove n key = v := by
  rw [h.outcome_remove] at absent
  rw [remove, if_neg]
  intro there
  simp [there] at absent

theorem trie_remove (h : Sound v.trie) (n : Nat) (key : κ) :
    (v.remove n key).trie = v.trie.remove key := by
  rw [remove]
  split
  · rfl
  · next absent =>
    refine (remove_eq_self_of_outcome ?_).symm
    rw [h.outcome_remove, if_neg absent]

theorem trie_removeAll (h : Sound v.trie) (n : Nat) (keys : List κ) :
    (v.removeAll n keys).trie = v.trie.removeAll keys := by
  induction keys using List.reverseRecOn with
  | nil => rfl
  | append_singleton keys key ih =>
    have before := h.removeAll keys
    rw [← ih] at before
    rw [removeAll_append, ← ih, ← trie_remove before n, removeAll, removeAll, List.foldl_append]
    rfl

theorem removeAll_eq_self (h : Sound v.trie) (n : Nat) {keys : List κ}
    (idle : v.trie.IdleRemoval keys) : v.removeAll n keys = v := by
  apply foldl_eq_self
  intro before key after split
  have trie := trie_removeAll h n before
  rw [removeAll] at trie
  apply remove_eq_self
  · rw [trie]
    exact h.removeAll before
  · rw [trie]
    exact idle before key after split

theorem insert_eq_self (h : Sound v.trie) (n : Nat) {key : κ} {value : ν}
    (unchanged : v.trie.outcome (.insert key value) = .unchanged) : v.insert n key value = v := by
  rw [h.outcome_insert] at unchanged
  rw [insert, if_pos]
  cases found : v.trie.get? key with
  | none => simp [found] at unchanged
  | some old =>
    rw [found] at unchanged
    by_cases equal : (old == value) = true
    · exact equal
    · simp [equal] at unchanged

end

section
variable [EquivBEq κ] [LawfulBEq ν] {v : Version κ ν}

theorem trie_insert (h : Sound v.trie) (n : Nat) (key : κ) (value : ν) :
    (v.insert n key value).trie = v.trie.insert key value := by
  rw [insert]
  split
  · next bound => exact (h.insert_eq_self (eq_of_beq bound) BEq.rfl).symm
  · rfl

theorem trie_mergeWith (h : Sound v.trie) (n : Nat) (entries : List (κ × ν))
    (remap : ν → ν → ν) : (v.mergeWith n entries remap).trie = v.trie.mergeWith entries remap := by
  induction entries using List.reverseRecOn with
  | nil => rfl
  | append_singleton entries e ih =>
    have before := h.mergeWith entries remap
    rw [← ih] at before
    have last := trie_insert before n e.1 (match (v.mergeWith n entries remap).trie.get? e.1 with
      | some existing => remap existing e.2
      | none => e.2)
    rw [mergeWith_append, ← ih, mergeUpdate, apply, ← last, mergeWith, mergeWith, List.foldl_append]
    rfl

theorem mergeWith_eq_self (h : Sound v.trie) (n : Nat) {entries : List (κ × ν)}
    {remap : ν → ν → ν} (idle : v.trie.IdleMerge entries remap) :
    v.mergeWith n entries remap = v := by
  apply foldl_eq_self
  intro before e after split
  have trie := trie_mergeWith h n before remap
  rw [mergeWith] at trie
  apply insert_eq_self
  · rw [trie]
    exact h.mergeWith before remap
  · rw [trie]
    exact idle before e after split

end

end Version

/-- What updates of a trie by lists come to, where `same` says which keys are one. The trie itself
is a value that stays as it is, and updates that change nothing give back the version they started
from. -/
structure Bulk (same : κ → κ → Bool) (t : Trie κ ν) : Prop where
  merge : ∀ entries remap key, (t.mergeWith entries remap).get? key =
    combined remap (t.get? key) (incoming same key entries)
  merge_calls : ∀ entries remap, (t.mergeLogged entries remap).2 = calls same t entries remap
  /-- There are no calls but these. -/
  merge_only : ∀ entries remap remap',
    (∀ call ∈ (t.mergeLogged entries remap).2, remap' call.1 call.2 = remap call.1 call.2) →
      t.mergeWith entries remap' = t.mergeWith entries remap
  merge_size : ∀ entries remap, (t.mergeWith entries remap).size = t.size +
    (((entries.map (·.1)).filter (!t.contains ·)).eraseDupsBy same).length
  /-- The trie itself, so that no version of it is left. -/
  merge_idle : ∀ entries remap, t.IdleMerge entries remap → t.mergeWith entries remap = t ∧
    ∀ (v : Version κ ν) (n : Nat), v.trie = t → v.mergeWith n entries remap = v
  select : ∀ keys, (t.selectKeys keys).toList.Perm
    ((t.present keys).eraseDupsBy fun a b => same a.1 b.1)
  select_get? : ∀ keys key, (t.selectKeys keys).get? key =
    if keys.any (same · key) then t.get? key else none
  select_size : ∀ keys, (t.selectKeys keys).size =
    ((t.present keys).eraseDupsBy fun a b => same a.1 b.1).length
  remove : ∀ keys, (t.removeAll keys).toList.Perm
    (t.toList.filter fun e => !keys.any (same e.1 ·))
  remove_size : ∀ keys, (t.removeAll keys).size =
    (t.toList.filter fun e => !keys.any (same e.1 ·)).length
  remove_idle : ∀ keys, t.IdleRemoval keys → t.removeAll keys = t ∧
    ∀ (v : Version κ ν) (n : Nat), v.trie = t → v.removeAll n keys = v
  collect : ∀ (entries : List (κ × ν)) key,
    (ofList entries).get? key = (incoming same key entries).getLast?
  collect_size : ∀ entries : List (κ × ν), (ofList entries).size =
    ((entries.map (·.1)).eraseDupsBy same).length

variable [EquivBEq κ] [LawfulBEq ν]

theorem Sound.bulk (h : Sound t) : Bulk sameKey t where
  merge := h.get?_mergeWith
  merge_calls := h.mergeLogged_snd
  merge_only entries remap remap' agree := by
    rw [Trie.mergeWith, mergeLogged_congr agree, Trie.mergeWith]
  merge_size := h.size_mergeWith
  merge_idle entries remap idle := by
    refine ⟨idle.mergeWith_eq, ?_⟩
    rintro v n rfl
    exact Version.mergeWith_eq_self h n idle
  select := h.toList_selectKeys
  select_get? := h.get?_selectKeys
  select_size keys := by
    rw [(Sound.selectKeys t keys).size, (h.toList_selectKeys keys).length_eq]
  remove := h.toList_removeAll
  remove_size keys := by
    rw [(h.removeAll keys).size, (h.toList_removeAll keys).length_eq]
  remove_idle keys idle := by
    refine ⟨idle.removeAll_eq, ?_⟩
    rintro v n rfl
    exact Version.removeAll_eq_self h n idle
  collect entries key := by
    rw [ofList, insertAll_eq_mergeWith, sound_empty.get?_mergeWith, get?_empty, combined_last,
      Option.or_none]
  collect_size entries := by
    have all : ∀ keys : List κ, keys.filter (!(empty : Trie κ ν).contains ·) = keys := by
      simp [contains_empty]
    rw [ofList, insertAll_eq_mergeWith, sound_empty.size_mergeWith, all]
    exact Nat.zero_add _

/-- What merging, selecting, removing and collecting by lists come to, for every trie that can be
built. On a lawful hash function two keys are one just when they are equal; on any other one they
also need one hash. -/
theorem Built.updates_by_lists (h : Built t) :
    Bulk sameKey t ∧ (LawfulHashable κ → Bulk (fun a b => a == b) t) := by
  refine ⟨h.sound.bulk, fun lawful => ?_⟩
  have same : (sameKey : κ → κ → Bool) = fun a b => a == b := funext₂ sameKey_eq
  rw [← same]
  exact h.sound.bulk

end

/-- Two keys of one bucket, one of them new and both listed twice, the old one in another form. -/
theorem Built.updates_by_lists_colliding :
    let a : Key := .bucketed 7 1 "a"
    let b : Key := .bucketed 7 2 "b"
    let t : Trie Key Nat := .ofList [(a, 1), (.int 5, 9)]
    let entries : List (Key × Nat) := [(b, 2), (a, 3), (b, 4), (.bucketed 7 1 "again", 5)]
    let remap : Nat → Nat → Nat := fun old new => 10 * old + new
    (EquivBEq Key ∧ LawfulHashable Key ∧ LawfulBEq Nat ∧ Built t) ∧
      (t.mergeWith entries remap).get? a = some 135 ∧
      (t.mergeLogged entries remap).2 = [(1, 3), (2, 4), (13, 5)] ∧
      (t.mergeWith entries remap).size = 3 ∧
      (t.selectKeys [b, .bucketed 7 1 "again", a]).toList = [(.bucketed 7 1 "again", 1)] ∧
      (t.removeAll [b, a]).size = 1 := by
  intro a b t entries remap
  have built : Built t := .ofList _
  have bulk := (Built.updates_by_lists built).2 inferInstance
  refine ⟨⟨inferInstance, inferInstance, inferInstance, built⟩, ?_, ?_, ?_, ?_, ?_⟩
  · exact (bulk.merge entries remap a).trans (by decide +kernel)
  · exact (bulk.merge_calls entries remap).trans (by decide +kernel)
  · exact (bulk.merge_size entries remap).trans (by decide +kernel)
  · have once : (t.present [b, .bucketed 7 1 "again", a]).eraseDupsBy (fun a b => a.1 == b.1) =
        [(.bucketed 7 1 "again", 1)] := by decide +kernel
    have chosen := bulk.select [b, .bucketed 7 1 "again", a]
    rw [once] at chosen
    exact List.perm_singleton.mp chosen
  · exact (bulk.remove_size [b, a]).trans (by decide +kernel)

end ModuleSystem.Trie
