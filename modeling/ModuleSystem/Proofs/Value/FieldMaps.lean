import ModuleSystem.Proofs.Fields
import ModuleSystem.Proofs.Trie.Bulk
import ModuleSystem.Proofs.Trie.FiniteMap
import ModuleSystem.Value

/-! The fields of a struct in order of name say all that a trie of them says, whatever its shape and
the order of its entries: `Stands` relates the two. -/

namespace ModuleSystem.Value

open Trie (PairMap Represents)

section Assign

variable {fields : Fields Value} {name key : String} {v : Value}

theorem isBound_iff : isBound fields name v = true ↔
    ∃ old, Fields.get? fields name = some old ∧ (old == v) = true := by
  rw [isBound, Option.any_eq_true]

theorem get?_assign_of_ne (other : name ≠ key) :
    Fields.get? (assign fields name v) key = fields.get? key := by
  unfold assign
  split
  · rfl
  · exact Fields.get?_insert_of_ne other

/-- A binding keeps an equal value that it had before. -/
theorem get?_assign_self : Fields.get? (assign fields name v) name =
    if isBound fields name v then fields.get? name else some v := by
  unfold assign
  split
  · rfl
  · exact Fields.get?_insert_self

end Assign

/-- The fields are the entries of the trie, in order of name. -/
structure Stands (t : Trie String Value) (fields : Fields Value) : Prop where
  represents : Represents t fields
  sorted : fields.Sorted

variable {t u : Trie String Value} {fields fields' : Fields Value}

theorem stands_empty : Stands .empty [] := ⟨Trie.represents_empty, Fields.sorted_nil⟩

/-- There is one order of the entries only. -/
theorem Stands.unique (h : Stands t fields) (h' : Stands t fields') : fields = fields' := by
  have perm := h.represents.entries.symm.trans h'.represents.entries
  refine perm.eq_of_pairwise ?_ (List.pairwise_map.mp h.sorted) (List.pairwise_map.mp h'.sorted)
  intro a b _ _ less more
  exact absurd more (String.lt_asymm less)

theorem Stands.get? (h : Stands t fields) (name : String) : t.get? name = fields.get? name := by
  rw [h.represents.agrees.get, PairMap.get?, PairMap.stored?, Fields.get?_eq_find?]

theorem Stands.insert (h : Stands t fields) (name : String) (value : Value) :
    Stands (t.insert name value) (assign fields name value) := by
  obtain ⟨⟨sound, entries⟩, _⟩ := h.represents.insert name value
  have bound : Fields.get? fields name = (fields.find? (·.1 == name)).map (·.2) :=
    Fields.get?_eq_find?
  rw [PairMap.insert, PairMap.stored?] at entries
  rw [assign, isBound]
  cases found : fields.find? (·.1 == name) with
  | none =>
    rw [found] at bound entries
    rw [bound]
    refine ⟨⟨sound, entries.trans ?_⟩, Fields.sorted_insert h.sorted⟩
    exact (List.perm_append_singleton _ _).trans (Fields.insert_new bound).symm
  | some stored =>
    rw [found] at bound entries
    rw [bound]
    by_cases equal : (stored.2 == value) = true
    · simp only [equal, if_true] at entries
      simp only [Option.map_some, Option.any_some, equal, if_true]
      exact ⟨⟨sound, entries⟩, h.sorted⟩
    · simp only [equal] at entries
      simp only [Option.map_some, Option.any_some, equal]
      refine ⟨⟨sound, ?_⟩, Fields.sorted_insert h.sorted⟩
      rwa [Fields.insert_bound h.sorted bound]

theorem Stands.assignAll (h : Stands t fields) (entries : List (String × Value)) :
    Stands (t.insertAll entries) (assignAll fields entries) := by
  induction entries generalizing t fields with
  | nil => exact h
  | cons entry rest ih => exact ih (h.insert entry.1 entry.2)

/-- Entries are collected in any order, the last one for each name. -/
theorem stands_collected (entries : List (String × Value)) :
    Stands (.ofList entries) (Value.assignAll [] entries) := stands_empty.assignAll entries

/-- Fields in order are collected as they are. -/
theorem assignAll_append {more : Fields Value} (sorted : Fields.Sorted (fields ++ more)) :
    Value.assignAll fields more = fields ++ more := by
  induction more generalizing fields with
  | nil => exact (List.append_nil fields).symm
  | cons field rest ih =>
    obtain ⟨before, sorted⟩ := Fields.sorted_append_cons sorted
    have new : Fields.get? fields field.1 = none := by
      cases bound : Fields.get? fields field.1 with
      | none => rfl
      | some value =>
        have less := before (field.1, value) (Fields.mem_of_get? bound)
        exact absurd less (String.lt_irrefl _)
    have last : assign fields field.1 field.2 = fields ++ [field] := by
      rw [assign, isBound, new, Fields.insert_last before]
      rfl
    have step : Value.assignAll fields (field :: rest) = Value.assignAll (fields ++ [field]) rest :=
      congrArg (Value.assignAll · rest) last
    rw [step, ih sorted, List.append_assoc, List.singleton_append]

theorem stands_of_sorted (sorted : fields.Sorted) : Stands (.ofList fields) fields := by
  have h := stands_collected fields
  have same : Value.assignAll [] fields = fields := assignAll_append sorted
  rwa [same] at h

/-- The entries of a trie, sorted on their way out. -/
theorem stands_sorted (sound : Trie.Sound t) : Stands t (.ofList t.toList) := by
  have distinct : (t.toList.map (·.1)).Nodup :=
    List.pairwise_map.mpr (sound.distinct.imp fun other => ne_of_beq_false other)
  exact ⟨⟨sound, (Fields.ofList_perm distinct).symm⟩, Fields.sorted_insertAll Fields.sorted_nil⟩

/-- Entries that agree with `lookup` are collected into what it tells of their names. -/
theorem get?_assignAll_of_agree {lookup : String → Option Value} {entries : List (String × Value)}
    (agree : ∀ e ∈ entries, lookup e.1 = some e.2)
    (within : ∀ name v, Fields.get? fields name = some v → lookup name = some v) (name : String) :
    Fields.get? (Value.assignAll fields entries) name =
      if name ∈ entries.map (·.1) then lookup name else fields.get? name := by
  induction entries generalizing fields with
  | nil => rfl
  | cons entry rest ih =>
    obtain ⟨first, agree⟩ := List.forall_mem_cons.mp agree
    -- An equal value may stay in the place of the new one, but `lookup` tells the old one then.
    have same : Fields.get? (assign fields entry.1 entry.2) entry.1 = lookup entry.1 := by
      rw [get?_assign_self]
      split
      · next bound =>
        obtain ⟨old, found, _⟩ := isBound_iff.mp bound
        rw [found, within _ _ found]
      · exact first.symm
    have still : ∀ key v, Fields.get? (assign fields entry.1 entry.2) key = some v →
        lookup key = some v := by
      intro key v found
      by_cases here : entry.1 = key
      · rwa [← here, same, here] at found
      · apply within
        rwa [get?_assign_of_ne here] at found
    rw [Value.assignAll, List.foldl_cons, ← Value.assignAll, ih agree still, List.map_cons]
    by_cases here : entry.1 = name
    · subst here
      simp [same]
    · have later : name ∈ entry.1 :: rest.map (·.1) ↔ name ∈ rest.map (·.1) := by
        rw [List.mem_cons, or_iff_right (Ne.symm here)]
      simp only [later, get?_assign_of_ne here]

/-- Selecting keys of a trie selects the fields of these names. -/
theorem Stands.selectKeys (h : Stands t fields) {keys names : List String}
    (same : ∀ name, name ∈ keys ↔ name ∈ names) :
    Stands (t.selectKeys keys) (fields.select names) := by
  have collected := stands_collected (t.present keys)
  have chosen : Value.assignAll [] (t.present keys) = fields.select names := by
    apply collected.sorted.ext (h.sorted.select names)
    intro name
    have agree : ∀ e ∈ t.present keys, t.get? e.1 = some e.2 := fun _ mem => Trie.mem_present mem
    rw [get?_assignAll_of_agree agree (by simp [Fields.get?]), Fields.get?_select, ← h.get?]
    cases found : t.get? name with
    | none =>
      split <;> split <;> rfl
    | some v =>
      have present : name ∈ (t.present keys).map (·.1) ↔ name ∈ names := by
        rw [← same]
        simp [Trie.present, found]
      simp only [present]
      rfl
  rw [Trie.selectKeys_eq_insertAll, ← chosen]
  exact collected

theorem names_of_beqFields (equal : beqFields fields' fields = true) :
    fields'.names = fields.names := by
  induction fields generalizing fields' with
  | nil =>
    cases fields' with
    | nil => rfl
    | cons field' rest' => cases equal
  | cons field rest ih =>
    cases fields' with
    | nil => cases equal
    | cons field' rest' =>
      rw [beqFields, Bool.and_eq_true, Bool.and_eq_true, beq_iff_eq] at equal
      exact List.cons_eq_cons.mpr ⟨equal.1.1, ih equal.2⟩

/-- With the same names, fields are compared by looking up one after the other. -/
theorem beqFields_iff_of_names (distinct : fields.names.Nodup)
    (names : fields'.names = fields.names) : beqFields fields' fields = true ↔
      ∀ field ∈ fields, (Fields.get? fields' field.1 == some field.2) = true := by
  induction fields generalizing fields' with
  | nil =>
    obtain rfl := List.map_eq_nil_iff.mp names
    simp [beqFields]
  | cons field rest ih =>
    obtain ⟨⟨name, value⟩, rest', rfl, same, others⟩ := List.map_eq_cons_iff.mp names
    simp only at same
    subst same
    rw [Fields.names, List.map_cons, List.nodup_cons] at distinct
    have first : Fields.get? ((field.1, value) :: rest') field.1 = some value := by
      rw [Fields.get?, if_pos rfl]
    have later : ∀ f ∈ rest, Fields.get? ((field.1, value) :: rest') f.1 = Fields.get? rest' f.1 := by
      intro f mem
      apply Fields.get?_cons_of_ne
      intro same
      exact distinct.1 (List.mem_map.mpr ⟨f, mem, same.symm⟩)
    rw [beqFields, Bool.and_eq_true, Bool.and_eq_true, ih distinct.2 others, List.forall_mem_cons, first]
    constructor
    · rintro ⟨⟨_, equal⟩, inner⟩
      refine ⟨equal, ?_⟩
      intro f mem
      rw [later f mem]
      exact inner f mem
    · rintro ⟨equal, inner⟩
      refine ⟨⟨beq_self_eq_true _, equal⟩, ?_⟩
      intro f mem
      rw [← later f mem]
      exact inner f mem

/-- As many names, and all of the second list among those of the first. -/
theorem names_of_found (sorted : fields.Sorted) (sorted' : fields'.Sorted)
    (length : fields.length = fields'.length)
    (found : ∀ field ∈ fields, ∃ value, Fields.get? fields' field.1 = some value) :
    fields'.names = fields.names := by
  have within : fields.names ⊆ fields'.names := by
    intro name mem
    obtain ⟨field, inside, rfl⟩ := List.mem_map.mp mem
    obtain ⟨value, bound⟩ := found field inside
    exact List.mem_map_of_mem (f := (·.1)) (Fields.mem_of_get? bound)
  have few : fields'.names.length ≤ fields.names.length := by
    rw [Fields.names, Fields.names, List.length_map, List.length_map, length]
  have perm := (List.subperm_of_subset sorted.nodup within).perm_of_length_le few
  refine perm.symm.eq_of_pairwise ?_ sorted' sorted
  intro a b _ _ less more
  exact absurd more (String.lt_asymm less)

/-- Tries are equal by content just when their fields are, one by one. -/
theorem Stands.beq (h : Stands t fields) (h' : Stands u fields') :
    (t == u) = beqFields fields' fields := by
  have size : t.size = fields.length := h.represents.agrees.size
  have size' : u.size = fields'.length := h'.represents.agrees.size
  have unfolded : (t == u) = true ↔ fields.length = fields'.length ∧
      ∀ field ∈ fields, (Fields.get? fields' field.1 == some field.2) = true := by
    change (t.size == u.size && t.toList.all fun e => u.get? e.1 == some e.2) = true ↔ _
    rw [h.represents.entries.all_eq, Bool.and_eq_true, beq_iff_eq, size, size', List.all_eq_true]
    simp only [h'.get?]
  rw [Bool.eq_iff_iff, unfolded]
  constructor
  · rintro ⟨length, equal⟩
    have names : fields'.names = fields.names := by
      apply names_of_found h.sorted h'.sorted length
      intro field mem
      have here := equal field mem
      cases bound : Fields.get? fields' field.1 with
      | none =>
        rw [bound] at here
        cases here
      | some value => exact ⟨value, rfl⟩
    exact (beqFields_iff_of_names h.sorted.nodup names).mpr equal
  · intro equal
    have names := names_of_beqFields equal
    have length := congrArg List.length names
    rw [Fields.names, Fields.names, List.length_map, List.length_map] at length
    exact ⟨length.symm, (beqFields_iff_of_names h.sorted.nodup names).mp equal⟩

end ModuleSystem.Value
