import ModuleSystem.Fields

namespace ModuleSystem.Fields

variable {α : Type} {fields : Fields α} {name : String} {value : α}

instance (fields : Fields α) : Decidable fields.Sorted :=
  inferInstanceAs (Decidable (List.Pairwise _ _))

theorem sorted_nil : Sorted ([] : Fields α) := List.Pairwise.nil

theorem sorted_cons {field : String × α} :
    Sorted (field :: fields) ↔ (∀ f ∈ fields, field.1 < f.1) ∧ Sorted fields := by
  rw [Sorted, List.map_cons, List.pairwise_cons, List.forall_mem_map]
  rfl

/-- Names in order that come past all others. -/
theorem sorted_append_cons {more : Fields α} {field : String × α}
    (h : Sorted (fields ++ field :: more)) :
    (∀ f ∈ fields, f.1 < field.1) ∧ Sorted ((fields ++ [field]) ++ more) := by
  constructor
  · intro f mem
    rw [Sorted, List.map_append, List.pairwise_append] at h
    exact h.2.2 f.1 (List.mem_map_of_mem mem) field.1 List.mem_cons_self
  · rwa [List.append_assoc, List.singleton_append]

theorem insert_last (past : ∀ f ∈ fields, f.1 < name) :
    fields.insert name value = fields ++ [(name, value)] := by
  induction fields with
  | nil => rfl
  | cons field rest ih =>
    obtain ⟨first, later⟩ := List.forall_mem_cons.mp past
    have not_before : ¬name < field.1 := String.lt_asymm first
    have other : field.1 ≠ name := fun same => String.lt_irrefl name (same ▸ first)
    rw [insert, if_neg not_before, if_neg other, ih later]
    rfl

theorem mem_of_get? (h : fields.get? name = some value) : (name, value) ∈ fields := by
  induction fields with
  | nil => cases h
  | cons first rest ih =>
    rw [get?] at h
    split at h
    · next same =>
      cases h
      rw [← same]
      exact List.mem_cons_self
    · exact List.mem_cons_of_mem _ (ih h)

theorem mem_insert {field : String × α} (mem : field ∈ fields.insert name value) :
    field = (name, value) ∨ field ∈ fields := by
  induction fields with
  | nil => exact .inl (List.mem_singleton.mp mem)
  | cons first rest ih =>
    rw [insert] at mem
    split at mem
    · exact List.mem_cons.mp mem
    split at mem
    · obtain here | later := List.mem_cons.mp mem
      · exact .inl here
      · exact .inr (List.mem_cons_of_mem _ later)
    · obtain rfl | later := List.mem_cons.mp mem
      · exact .inr List.mem_cons_self
      · exact (ih later).imp_right (List.mem_cons_of_mem _)

theorem sorted_insert (sorted : Sorted fields) : Sorted (fields.insert name value) := by
  induction fields with
  | nil => exact List.pairwise_singleton _ _
  | cons first rest ih =>
    obtain ⟨before, sorted_rest⟩ := sorted_cons.mp sorted
    rw [insert]
    split
    · next less =>
      refine sorted_cons.mpr ⟨fun f mem => ?_, sorted⟩
      obtain rfl | later := List.mem_cons.mp mem
      · exact less
      · exact String.lt_trans less (before f later)
    split
    · next same =>
      subst same
      exact sorted_cons.mpr ⟨before, sorted_rest⟩
    · next not_less other =>
      refine sorted_cons.mpr ⟨fun f mem => ?_, ih sorted_rest⟩
      obtain rfl | old := mem_insert mem
      · refine String.not_le.mp fun le => other ?_
        exact String.le_antisymm (String.not_lt.mp not_less) le
      · exact before f old

theorem Sorted.nodup (h : fields.Sorted) : fields.names.Nodup :=
  h.imp fun less => String.ne_of_lt less

theorem get?_cons_of_ne {field : String × α} (other : field.1 ≠ name) :
    get? (field :: fields) name = fields.get? name := by
  rw [get?, if_neg other]

theorem get?_eq_find? : fields.get? name = (fields.find? (·.1 == name)).map (·.2) := by
  induction fields with
  | nil => rfl
  | cons field rest ih =>
    by_cases same : field.1 = name
    · simp [get?, same]
    · rw [get?_cons_of_ne same, ih, List.find?_cons_of_neg (by simpa using same)]

theorem insert_new (absent : fields.get? name = none) :
    (fields.insert name value).Perm ((name, value) :: fields) := by
  induction fields with
  | nil => exact .refl _
  | cons field rest ih =>
    by_cases same : field.1 = name
    · simp [get?, same] at absent
    · rw [get?_cons_of_ne same] at absent
      rw [insert, if_neg same]
      split
      · exact .refl _
      · exact ((ih absent).cons field).trans (.swap ..)

/-- A name that is bound already keeps its place. -/
theorem insert_bound {old : α} (sorted : fields.Sorted) (bound : fields.get? name = some old) :
    fields.insert name value =
      fields.map fun field => if field.1 == name then (name, value) else field := by
  induction fields with
  | nil => cases bound
  | cons field rest ih =>
    obtain ⟨before, sorted⟩ := sorted_cons.mp sorted
    by_cases same : field.1 = name
    · subst same
      have others : rest.map (fun f => if f.1 == field.1 then (field.1, value) else f) = rest := by
        conv => rhs; rw [← List.map_id rest]
        apply List.map_congr_left
        intro f mem
        simp [(String.ne_of_lt (before f mem)).symm]
      rw [insert, if_neg (String.lt_irrefl _), if_pos rfl, List.map_cons, others]
      simp
    · rw [get?_cons_of_ne same] at bound
      have not_before : ¬name < field.1 := String.lt_asymm (before (name, old) (mem_of_get? bound))
      rw [insert, if_neg not_before, if_neg same, ih sorted bound, List.map_cons]
      simp [same]

theorem sorted_insertAll {entries : List (String × α)} (sorted : fields.Sorted) :
    (fields.insertAll entries).Sorted := by
  induction entries generalizing fields with
  | nil => exact sorted
  | cons entry rest ih => exact ih (sorted_insert sorted)

/-- Entries with a name each are all there, whatever their order. -/
theorem insertAll_perm {entries : List (String × α)} (distinct : (fields ++ entries).names.Nodup) :
    (fields.insertAll entries).Perm (fields ++ entries) := by
  induction entries generalizing fields with
  | nil =>
    rw [List.append_nil]
    exact .refl _
  | cons entry rest ih =>
    have absent : fields.get? entry.1 = none := by
      cases bound : fields.get? entry.1 with
      | none => rfl
      | some value =>
        rw [names, List.map_append, List.nodup_append] at distinct
        have here := List.mem_map_of_mem (f := (·.1)) (mem_of_get? bound)
        exact absurd rfl (distinct.2.2 _ here _ List.mem_cons_self)
    have perm : (fields.insert entry.1 entry.2 ++ rest).Perm (entry :: fields ++ rest) :=
      (insert_new absent).append_right rest
    have moved : (entry :: fields ++ rest).Perm (fields ++ entry :: rest) :=
      List.perm_middle.symm
    have whole := perm.trans moved
    exact (ih ((whole.map _).nodup_iff.mpr distinct)).trans whole

theorem ofList_perm {entries : List (String × α)} (distinct : (entries.map (·.1)).Nodup) :
    (ofList entries).Perm entries := insertAll_perm distinct

theorem get?_insert_self : (fields.insert name value).get? name = some value := by
  induction fields with
  | nil => rw [insert, get?, if_pos rfl]
  | cons field rest ih =>
    rw [insert]
    split
    · rw [get?, if_pos rfl]
    split
    · rw [get?, if_pos rfl]
    · next other => rw [get?_cons_of_ne other, ih]

theorem get?_insert_of_ne {key : String} (other : name ≠ key) :
    (fields.insert name value).get? key = fields.get? key := by
  induction fields with
  | nil => rw [insert, get?_cons_of_ne other]
  | cons field rest ih =>
    rw [insert]
    split
    · exact get?_cons_of_ne other
    split
    · next same => rw [get?_cons_of_ne other, get?_cons_of_ne (same ▸ other)]
    · rw [get?, ih, get?]

theorem get?_eq_some_iff (distinct : fields.names.Nodup) :
    fields.get? name = some value ↔ (name, value) ∈ fields := by
  constructor
  · exact mem_of_get?
  · intro mem
    induction fields with
    | nil => cases mem
    | cons field rest ih =>
      rw [names, List.map_cons, List.nodup_cons] at distinct
      obtain rfl | later := List.mem_cons.mp mem
      · rw [get?, if_pos rfl]
      · have other : field.1 ≠ name := by
          rintro rfl
          exact distinct.1 (List.mem_map_of_mem (f := (·.1)) later)
        rw [get?_cons_of_ne other, ih distinct.2 later]

theorem mem_names_iff : name ∈ fields.names ↔ (fields.get? name).isSome = true := by
  constructor
  · intro mem
    induction fields with
    | nil => cases mem
    | cons field rest ih =>
      rw [get?]
      split
      · rfl
      · next other =>
        rw [names, List.map_cons, List.mem_cons] at mem
        exact ih (mem.resolve_left (Ne.symm other))
  · intro bound
    obtain ⟨value, found⟩ := Option.isSome_iff_exists.mp bound
    exact List.mem_map_of_mem (mem_of_get? found)

/-- Field maps with the same fields are the same. -/
theorem Sorted.ext {fields' : Fields α} (sorted : fields.Sorted) (sorted' : fields'.Sorted)
    (same : ∀ name, fields.get? name = fields'.get? name) : fields = fields' := by
  have different : ∀ {fields : Fields α}, fields.Sorted → fields.Nodup := fun sorted =>
    (List.pairwise_map.mp sorted.nodup).imp fun other same => other (congrArg _ same)
  have perm : fields.Perm fields' := by
    apply (List.perm_ext_iff_of_nodup (different sorted) (different sorted')).mpr
    rintro ⟨name, value⟩
    rw [← get?_eq_some_iff sorted.nodup, ← get?_eq_some_iff sorted'.nodup, same]
  refine perm.eq_of_pairwise ?_ (List.pairwise_map.mp sorted) (List.pairwise_map.mp sorted')
  intro a b _ _ less more
  exact absurd more (String.lt_asymm less)

theorem Sorted.select (sorted : fields.Sorted) (chosen : List String) :
    (fields.select chosen).Sorted :=
  List.Pairwise.sublist (List.filter_sublist.map _) sorted

theorem get?_select (chosen : List String) :
    (fields.select chosen).get? name = if name ∈ chosen then fields.get? name else none := by
  induction fields with
  | nil =>
    rw [select, List.filter_nil, get?]
    split <;> rfl
  | cons field rest ih =>
    rw [select] at ih ⊢
    rw [List.filter_cons]
    by_cases same : field.1 = name
    · subst same
      by_cases listed : field.1 ∈ chosen
      · rw [if_pos (List.contains_iff_mem.mpr listed), if_pos listed, get?, if_pos rfl, get?,
          if_pos rfl]
      · rw [if_neg (fun h => listed (List.contains_iff_mem.mp h)), ih, if_neg listed,
          if_neg listed]
    · rw [get?_cons_of_ne same, ← ih]
      split
      · rw [get?_cons_of_ne same]
      · rfl

theorem mem_names_insertAll {entries : List (String × α)} :
    name ∈ (fields.insertAll entries).names ↔ name ∈ fields.names ∨ name ∈ entries.map (·.1) := by
  induction entries generalizing fields with
  | nil => simp [insertAll]
  | cons entry rest ih =>
    have one : name ∈ (fields.insert entry.1 entry.2).names ↔
        name = entry.1 ∨ name ∈ fields.names := by
      by_cases same : entry.1 = name
      · subst same
        rw [mem_names_iff, get?_insert_self]
        simp
      · rw [mem_names_iff, get?_insert_of_ne same, ← mem_names_iff]
        simp [Ne.symm same]
    rw [insertAll, List.foldl_cons, ← insertAll, ih, one, List.map_cons, List.mem_cons, or_assoc,
      or_left_comm]

end ModuleSystem.Fields

namespace ModuleSystem

@[simp] theorem mem_sortedNames {name : String} {names : List String} :
    name ∈ sortedNames names ↔ name ∈ names := by
  rw [sortedNames, Fields.ofList, Fields.mem_names_insertAll, List.map_map]
  simp [Fields.names]

end ModuleSystem
