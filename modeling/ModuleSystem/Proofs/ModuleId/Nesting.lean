import ModuleSystem.Proofs.ModuleId.Segments

namespace ModuleSystem.ModuleId

section

variable {id : ModuleId} {above : List String} {last : String}

theorem segment_above (split : id.segments = above ++ [last]) :
    ∀ segment ∈ above, Segment segment := by
  intro segment mem
  apply id.segment
  rw [split]
  exact List.mem_append_left _ mem

theorem reverse_text (split : id.segments = above ++ [last]) :
    id.text.toList.reverse = last.toList.reverse ++ '/' :: (slashed above).toList.reverse := by
  rw [id.text_eq_slashed, split, slashed_append, slashed_singleton]
  simp

theorem reverse_last_no_slash (split : id.segments = above ++ [last]) :
    ∀ c ∈ last.toList.reverse, (c != '/') = true := by
  have segment := id.segment last (by rw [split]; exact List.mem_concat_self)
  intro c mem
  rw [bne_iff_ne]
  rintro rfl
  exact segment.no_slash (List.mem_reverse.mp mem)

theorem name_eq (split : id.segments = above ++ [last]) : id.name = last := by
  rw [name, reverse_text split, List.takeWhile_append_of_pos (reverse_last_no_slash split)]
  simp

theorem parentText_eq (split : id.segments = above ++ [last]) : id.parentText = slashed above := by
  rw [parentText, reverse_text split, List.dropWhile_append_of_pos (reverse_last_no_slash split)]
  simp

end

theorem getLast?_segments (id : ModuleId) : id.segments.getLast? = some id.name := by
  obtain ⟨above, last, split⟩ := id.exists_last
  rw [name_eq split, split, List.getLast?_concat]

theorem parent?_eq_some_iff {id parent : ModuleId} :
    id.parent? = some parent ↔ parent.segments = id.segments.dropLast := by
  obtain ⟨above, last, split⟩ := id.exists_last
  have whole : ∀ segment ∈ above, '/' ∉ segment.toList :=
    fun segment mem => (segment_above split segment mem).no_slash
  have read : id.parent? = (ofSegments above).toOption := by
    rw [parent?, parentText_eq split]
    rfl
  rw [read, split, List.dropLast_concat, ← ofSegments_eq_ok_iff whole]
  cases ofSegments above <;> simp [Except.toOption]

/-- Only an id with a single segment has no parent. -/
theorem parent?_eq_none_iff {id : ModuleId} : id.parent? = none ↔ id.segments.length = 1 := by
  obtain ⟨above, last, split⟩ := id.exists_last
  have some_iff : (∃ parent, id.parent? = some parent) ↔ above ≠ [] := by
    constructor
    · rintro ⟨parent, found⟩ rfl
      have none := parent?_eq_some_iff.mp found
      rw [split, List.nil_append, List.dropLast_singleton] at none
      exact parent.segments_ne_nil none
    · intro nonempty
      obtain ⟨parent, segments⟩ := exists_of_segments ⟨nonempty, segment_above split⟩
      use parent
      apply parent?_eq_some_iff.mpr
      rw [segments, split, List.dropLast_concat]
  rw [← Option.not_isSome_iff_eq_none, Option.isSome_iff_exists, some_iff, not_not, split]
  cases above <;> simp

/-- What stands behind the text of `base` in a text with slashes, if it is nested there. -/
theorem slashed_rest (more : List String) :
    (slashed more).toList = [] ∨ ∃ rest, (slashed more).toList = '/' :: rest := by
  cases more with
  | nil => exact .inl rfl
  | cons segment more => exact .inr ⟨_, toList_slashed_cons segment more⟩

theorem isWithin_of_segments {id base : ModuleId} {more : List String}
    (split : id.segments = base.segments ++ more) : id.isWithin base = true := by
  have text : id.text.toList = base.text.toList ++ (slashed more).toList := by
    rw [id.text_eq_slashed, split, slashed_append, ← base.text_eq_slashed, String.toList_append]
  rw [isWithin, text, ← String.length_toList, List.drop_left, Bool.and_eq_true,
    List.isPrefixOf_iff_prefix]
  refine ⟨List.prefix_append _ _, ?_⟩
  obtain none | ⟨rest, begins⟩ := slashed_rest more
  · rw [none]
  · rw [begins]
    rfl

/-- Where a slash follows the text of `base`, the segments go on as well. -/
theorem segments_of_isWithin {id base : ModuleId} (within : id.isWithin base = true) :
    base.segments <+: id.segments := by
  rw [isWithin, Bool.and_eq_true, List.isPrefixOf_iff_prefix] at within
  obtain ⟨⟨rest, text⟩, next⟩ := within
  rw [← text, ← String.length_toList, List.drop_left] at next
  cases rest with
  | nil =>
    have same : id = base := by
      apply eq_of_text
      apply String.toList_inj.mp
      rw [← text, List.append_nil]
    rw [same]
  | cons c rest =>
    obtain rfl : c = '/' := by simpa using next
    obtain ⟨chars, begins⟩ := base.text_begins
    have segments_eq : ∀ {id : ModuleId} {chars}, id.text.toList = '/' :: chars →
        id.segments = (chars.splitOn '/').map String.ofList := by
      intro id chars begins
      rw [segments, begins, List.drop_one, List.tail_cons]
    have begins' : id.text.toList = '/' :: (chars ++ '/' :: rest) := by
      rw [← text, begins, List.cons_append]
    have pieces : (chars ++ '/' :: rest).splitOn '/' = chars.splitOn '/' ++ rest.splitOn '/' :=
      List.splitOnP_append_cons _ _ (beq_self_eq_true _)
    rw [segments_eq begins, segments_eq begins', pieces, List.map_append]
    exact List.prefix_append _ _

theorem isWithin_iff {id base : ModuleId} :
    id.isWithin base = true ↔ base.segments <+: id.segments := by
  constructor
  · exact segments_of_isWithin
  · rintro ⟨more, split⟩
    exact isWithin_of_segments split.symm

theorem isWithin_antisymm {a b : ModuleId} (ab : a.isWithin b = true) (ba : b.isWithin a = true) :
    a = b := by
  rw [isWithin_iff] at ab ba
  exact segments_injective (ba.eq_of_length_le ab.length_le)

instance : IsPartialOrder ModuleId fun a b => a.isWithin b = true where
  refl _ := isWithin_iff.mpr List.prefix_rfl
  trans _ _ _ ab bc := isWithin_iff.mpr ((isWithin_iff.mp bc).trans (isWithin_iff.mp ab))
  antisymm _ _ := isWithin_antisymm

/-- Ids with the same parent do not lie within each other, whatever one name has in common with the
other. -/
theorem eq_of_isWithin_sibling {a b : ModuleId} (siblings : a.parent? = b.parent?)
    (within : a.isWithin b = true) : a = b := by
  obtain ⟨above, last, split⟩ := a.exists_last
  obtain ⟨above', last', split'⟩ := b.exists_last
  have lengths : a.segments.length = b.segments.length := by
    cases parent : a.parent? with
    | none =>
      rw [parent?_eq_none_iff.mp parent, parent?_eq_none_iff.mp (siblings ▸ parent)]
    | some p =>
      have here := parent?_eq_some_iff.mp parent
      have there := parent?_eq_some_iff.mp (siblings ▸ parent)
      rw [here, split, split', List.dropLast_concat, List.dropLast_concat] at there
      rw [split, split', there, List.length_append, List.length_append]
      rfl
  exact segments_injective ((isWithin_iff.mp within).eq_of_length lengths.symm).symm

end ModuleSystem.ModuleId
