import Mathlib
import ModuleSystem.FileTree.Path

namespace ModuleSystem.Path

/-- The name of one entry of a directory, as opposed to a path of several names. -/
structure Plain (name : String) : Prop where
  nonempty : name ≠ ""
  whole : '/' ∉ name.toList
  not_here : name ≠ "."
  not_up : name ≠ ".."

theorem isAbsolute_iff {path : String} : isAbsolute path = true ↔ ['/'] <+: path.toList := by
  rw [isAbsolute, String.startsWith_string_iff]
  rfl

theorem endsWith_slash_iff {path : String} :
    path.endsWith "/" = true ↔ ∃ chars, path.toList = chars ++ ['/'] := by
  rw [String.endsWith_eq_endsWith_toSlice, String.Slice.endsWith_string_iff, String.copy_toSlice]
  constructor
  · rintro ⟨chars, h⟩
    exact ⟨chars, h.symm⟩
  · rintro ⟨chars, h⟩
    exact ⟨chars, h.symm⟩

namespace Plain

variable {name : String}

theorem not_absolute (h : Plain name) : isAbsolute name = false := by
  refine Bool.eq_false_iff.mpr fun absolute => h.whole ?_
  exact (isAbsolute_iff.mp absolute).subset (List.mem_singleton_self _)

theorem not_slash_end (h : Plain name) (base : String) : (base ++ name).endsWith "/" = false := by
  refine Bool.eq_false_iff.mpr fun slash => h.whole ?_
  obtain ⟨chars, last⟩ := endsWith_slash_iff.mp slash
  have filled : name.toList ≠ [] := fun empty => h.nonempty (String.toList_inj.mp empty)
  rw [String.toList_append] at last
  have ends : name.toList.getLast filled = '/' := by
    have same := congrArg List.getLast? last
    rw [List.getLast?_append_of_ne_nil _ filled, List.getLast?_concat,
      List.getLast?_eq_some_getLast filled] at same
    exact Option.some.inj same
  exact ends ▸ List.getLast_mem filled

end Plain

/-- Different names in a directory make different paths. -/
theorem join_injective {base a b : String} (relative : isAbsolute a = false)
    (relative' : isAbsolute b = false) (h : join base a = join base b) : a = b := by
  simp only [join, relative, relative', Bool.false_or] at h
  split at h
  · exact h
  · split at h
    · exact (String.append_right_inj base).mp h
    · exact (String.append_right_inj (base ++ "/")).mp h

/-- The names of a path, without the demand for a directory that a slash at its end makes. -/
def bare (path : String) : List String :=
  ((path.toList.splitOn '/').map String.ofList).filter (! ·.isEmpty)

theorem components_eq (path : String) :
    components path = bare path ++ if path.endsWith "/" then ["."] else [] := by
  unfold components bare
  simp only
  split <;> simp

theorem bare_append_slash (path base name : String)
    (h : path.toList = base.toList ++ '/' :: name.toList) : bare path = bare base ++ bare name := by
  have split : (base.toList ++ '/' :: name.toList).splitOn '/' =
      base.toList.splitOn '/' ++ name.toList.splitOn '/' :=
    List.splitOnP_append_cons _ _ (beq_self_eq_true _)
  rw [bare, h, split, List.map_append, List.filter_append]
  rfl

theorem bare_of_whole {name : String} (whole : '/' ∉ name.toList) (nonempty : name ≠ "") :
    bare name = [name] := by
  have one : name.toList.splitOn '/' = [name.toList] := by
    rw [List.splitOn, List.splitOnP_eq_singleton]
    intro c mem
    exact beq_eq_false_iff_ne.mpr fun slash => whole (slash ▸ mem)
  simp [bare, one, nonempty]

theorem bare_empty : bare "" = [] := by decide

/-- The names on the way to an entry of a directory. -/
theorem components_join {base name : String} (plain : Plain name) (nonempty : base ≠ "") :
    components (join base name) = bare base ++ [name] := by
  have single := bare_of_whole plain.whole plain.nonempty
  have filled : base.isEmpty = false := by simpa using nonempty
  simp only [join, plain.not_absolute, filled, Bool.or_false, Bool.false_eq_true, if_false]
  split
  · next slash =>
    obtain ⟨chars, ends⟩ := endsWith_slash_iff.mp slash
    have within : bare base = bare (String.ofList chars) := by
      rw [bare_append_slash base (String.ofList chars) "" (by simpa using ends),
        bare_empty, List.append_nil]
    have joined := bare_append_slash (base ++ name) (String.ofList chars) name (by simp [ends])
    rw [components_eq, plain.not_slash_end base, joined, single, within]
    simp
  · have joined := bare_append_slash (base ++ "/" ++ name) base name (by simp)
    rw [components_eq, plain.not_slash_end (base ++ "/"), joined, single]
    simp

/-- Where the program works, an entry is called by its name alone. -/
theorem join_empty (name : String) : join "" name = name := by
  unfold join
  rw [if_pos]
  simp

theorem components_of_plain {name : String} (plain : Plain name) : components name = [name] := by
  have ends : ¬name.endsWith "/" = true := by simpa using plain.not_slash_end ""
  rw [components_eq, bare_of_whole plain.whole plain.nonempty, if_neg ends, List.append_nil]

/-- The names on the way to an entry, also where the program works. -/
theorem components_entry {base name : String} (plain : Plain name) :
    components (join base name) = bare base ++ [name] := by
  by_cases empty : base = ""
  · rw [empty, join_empty, components_of_plain plain, bare_empty, List.nil_append]
  · exact components_join plain empty

theorem bare_join {base name : String} (plain : Plain name) :
    bare (join base name) = bare base ++ [name] := by
  have names : components (join base name) = bare base ++ [name] := components_entry plain
  rw [components_eq] at names
  split at names
  · -- A slash at the end would be the last name, which is no dot.
    have last := congrArg List.getLast? names
    rw [List.getLast?_concat, List.getLast?_concat] at last
    exact absurd (Option.some.inj last).symm plain.not_here
  · rwa [List.append_nil] at names

/-- A name of an entry grows at its end. -/
theorem join_append {base name : String} (plain : Plain name) (more : String) :
    join base name ++ more = join base (name ++ more) := by
  have relative : isAbsolute (name ++ more) = isAbsolute name := by
    obtain ⟨first, rest, chars⟩ := List.exists_cons_of_ne_nil
      fun empty : name.toList = [] => plain.nonempty (String.toList_inj.mp empty)
    apply Bool.eq_iff_iff.mpr
    rw [isAbsolute_iff, isAbsolute_iff, String.toList_append, chars]
    simp
  simp only [join, relative]
  split
  · rfl
  · split
    · exact String.append_assoc ..
    · exact String.append_assoc ..

theorem isAbsolute_join {base name : String} (relative : isAbsolute name = false)
    (nonempty : base ≠ "") : isAbsolute (join base name) = isAbsolute base := by
  have filled : base.toList ≠ [] := fun empty => nonempty (String.toList_inj.mp empty)
  obtain ⟨first, rest, chars⟩ := List.exists_cons_of_ne_nil filled
  have begins : ∀ path : String, (∃ more, path.toList = first :: more) →
      (isAbsolute path = true ↔ first = '/') := by
    rintro path ⟨more, here⟩
    rw [isAbsolute_iff, here]
    simp [eq_comm]
  refine Bool.eq_iff_iff.mpr ?_
  rw [begins base ⟨rest, chars⟩, begins]
  have filled' : base.isEmpty = false := by simpa using nonempty
  simp only [join, relative, filled', Bool.or_false, Bool.false_eq_true, if_false]
  split <;> simp [chars]

/-- A joined path holds no other characters than its parts and a slash. -/
theorem mem_join {c : Char} {base name : String} (h : c ∈ (join base name).toList) :
    c ∈ base.toList ∨ c = '/' ∨ c ∈ name.toList := by
  unfold join at h
  split at h
  · exact .inr (.inr h)
  · split at h
    · rw [String.toList_append, List.mem_append] at h
      exact h.imp id .inr
    · simpa [or_assoc] using h

end ModuleSystem.Path
