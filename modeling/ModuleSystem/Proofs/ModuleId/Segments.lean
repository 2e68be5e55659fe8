import Mathlib
import ModuleSystem.ModuleId

namespace ModuleSystem

/-- What a segment is: a letter or an underscore, then letters, digits and underscores. -/
def Segment (text : String) : Prop :=
  ∃ first rest, text.toList = first :: rest ∧ (first.isAlpha = true ∨ first = '_') ∧
    ∀ c ∈ rest, c.isAlphanum = true ∨ c = '_'

/-- A list of segments that an id can stand for. -/
structure Segmented (segments : List String) : Prop where
  nonempty : segments ≠ []
  each : ∀ segment ∈ segments, Segment segment

theorem isSegmentChar_iff {c : Char} : isSegmentChar c = true ↔ c.isAlphanum = true ∨ c = '_' := by
  rw [isSegmentChar, Bool.or_eq_true, beq_iff_eq]

theorem isSegmentStart_iff {c : Char} : isSegmentStart c = true ↔ c.isAlpha = true ∨ c = '_' := by
  rw [isSegmentStart, Bool.or_eq_true, beq_iff_eq]

theorem isSegment_iff {text : String} : isSegment text.toList = true ↔ Segment text := by
  unfold Segment
  cases text.toList with
  | nil => simp [isSegment]
  | cons first rest =>
    simp only [isSegment, Bool.and_eq_true, List.all_eq_true, isSegmentStart_iff,
      isSegmentChar_iff, List.cons.injEq]
    constructor
    · rintro ⟨start, more⟩
      exact ⟨first, rest, ⟨rfl, rfl⟩, start, more⟩
    · rintro ⟨_, _, ⟨rfl, rfl⟩, start, more⟩
      exact ⟨start, more⟩

namespace Segment

variable {text : String}

theorem nonempty (h : Segment text) : text ≠ "" := by
  rintro rfl
  obtain ⟨_, _, chars, _⟩ := h
  cases chars

theorem chars (h : Segment text) : ∀ c ∈ text.toList, c.isAlphanum = true ∨ c = '_' := by
  obtain ⟨first, rest, chars, start, more⟩ := h
  rw [chars]
  intro c mem
  obtain rfl | mem := List.mem_cons.mp mem
  · apply start.imp_left
    intro alpha
    rw [Char.isAlphanum, alpha, Bool.true_or]
  · exact more c mem

/-- Other characters, such as slashes, do not occur. -/
theorem lacks (h : Segment text) {c : Char} (other : isSegmentChar c = false) : c ∉ text.toList := by
  intro mem
  rw [isSegmentChar_iff.mpr (h.chars c mem)] at other
  cases other

theorem no_slash (h : Segment text) : '/' ∉ text.toList := h.lacks (by decide)

end Segment

/-- The text in which every segment follows a slash. -/
def slashed (segments : List String) : String := String.join (segments.map ("/" ++ ·))

theorem toList_slashed (segments : List String) :
    (slashed segments).toList = segments.flatMap fun segment => '/' :: segment.toList := by
  rw [slashed, String.toList_join, List.flatMap_map]
  apply List.flatMap_congr
  intro segment _
  rw [String.toList_append]
  rfl

theorem toList_slashed_cons (segment : String) (more : List String) :
    (slashed (segment :: more)).toList = '/' :: (segment.toList ++ (slashed more).toList) := by
  rw [toList_slashed, toList_slashed, List.flatMap_cons, List.cons_append]

theorem slashed_append (above below : List String) :
    slashed (above ++ below) = slashed above ++ slashed below := by
  apply String.toList_inj.mp
  rw [String.toList_append, toList_slashed, toList_slashed, toList_slashed, List.flatMap_append]

@[simp] theorem slashed_singleton (segment : String) : slashed [segment] = "/" ++ segment := by
  apply String.toList_inj.mp
  rw [toList_slashed, List.flatMap_singleton, String.toList_append]
  rfl

theorem slash_intercalate {pieces : List (List Char)} (nonempty : pieces ≠ []) :
    '/' :: ['/'].intercalate pieces = pieces.flatMap ('/' :: ·) := by
  induction pieces with
  | nil => exact absurd rfl nonempty
  | cons piece rest ih =>
    by_cases last : rest = []
    · simp [last]
    · rw [List.intercalate_cons_of_ne_nil last, List.flatMap_cons, ← ih last]
      simp

theorem splitOn_of_slashed {segments : List String} {rest : List Char} (nonempty : segments ≠ [])
    (whole : ∀ segment ∈ segments, '/' ∉ segment.toList)
    (chars : '/' :: rest = (slashed segments).toList) :
    rest.splitOn '/' = segments.map String.toList := by
  have filled : segments.map String.toList ≠ [] := by simpa using nonempty
  have pieces : (slashed segments).toList = (segments.map String.toList).flatMap ('/' :: ·) := by
    rw [toList_slashed, List.flatMap_map]
  rw [pieces, ← slash_intercalate filled, List.cons_inj_right] at chars
  rw [chars]
  apply List.splitOn_intercalate '/' _ filled
  simpa using whole

theorem segmentFault?_eq_none_iff {pieces : List (List Char)} :
    segmentFault? pieces = none ↔ ∀ piece ∈ pieces, isSegment piece = true := by
  induction pieces with
  | nil => simp [segmentFault?]
  | cons piece rest ih =>
    rw [List.forall_mem_cons]
    cases piece with
    | nil => simp [segmentFault?, isSegment]
    | cons c chars =>
      rw [segmentFault?]
      · by_cases segment : isSegment (c :: chars) = true
        · simp [segment, ih]
        · simp [segment]
      · intro empty
        cases empty

theorem absoluteFault?_eq_none_iff {text : String} :
    absoluteFault? text.toList = none ↔ ∃ segments, Segmented segments ∧ text = slashed segments := by
  constructor
  · intro absolute
    unfold absoluteFault? at absolute
    split at absolute
    · cases absolute
    · next rest _ chars =>
      have each := segmentFault?_eq_none_iff.mp absolute
      refine ⟨(rest.splitOn '/').map String.ofList, ⟨?_, ?_⟩, ?_⟩
      · simp
      · rintro _ mem
        obtain ⟨piece, here, rfl⟩ := List.mem_map.mp mem
        apply isSegment_iff.mp
        rw [String.toList_ofList]
        exact each piece here
      · apply String.toList_inj.mp
        rw [chars, toList_slashed, List.flatMap_map]
        simp only [String.toList_ofList]
        rw [← slash_intercalate (List.splitOn_ne_nil _ _), List.intercalate_splitOn]
    · cases absolute
  · rintro ⟨segments, ⟨nonempty, each⟩, rfl⟩
    obtain ⟨first, more, rfl⟩ := List.exists_cons_of_ne_nil nonempty
    obtain ⟨c, word, begins, _⟩ := each first List.mem_cons_self
    -- The first segment is not empty, so there is more than one slash.
    obtain ⟨rest, chars⟩ : ∃ rest, (slashed (first :: more)).toList = '/' :: c :: rest := by
      rw [toList_slashed_cons, begins]
      exact ⟨_, rfl⟩
    rw [chars, absoluteFault?]
    · rw [splitOn_of_slashed nonempty (fun segment mem => (each segment mem).no_slash) chars.symm,
        segmentFault?_eq_none_iff]
      simpa [isSegment_iff] using each
    · intro empty
      cases empty

namespace ModuleId

theorem eq_of_text {a b : ModuleId} (h : a.text = b.text) : a = b := by
  cases a
  cases b
  cases h
  rfl

theorem segments_of_text {id : ModuleId} {segments : List String} (nonempty : segments ≠ [])
    (whole : ∀ segment ∈ segments, '/' ∉ segment.toList) (text : id.text = slashed segments) :
    id.segments = segments := by
  obtain ⟨first, more, rfl⟩ := List.exists_cons_of_ne_nil nonempty
  have chars := toList_slashed_cons first more
  rw [segments, text, chars, List.drop_one, List.tail_cons,
    splitOn_of_slashed nonempty whole chars.symm, List.map_map]
  simp

theorem segmented (id : ModuleId) : Segmented id.segments ∧ id.text = slashed id.segments := by
  obtain ⟨segments, segmented, text⟩ := absoluteFault?_eq_none_iff.mp id.absolute
  have same := segments_of_text segmented.nonempty
    (fun segment mem => (segmented.each segment mem).no_slash) text
  rw [same]
  exact ⟨segmented, text⟩

theorem segments_ne_nil (id : ModuleId) : id.segments ≠ [] := id.segmented.1.nonempty

theorem segment (id : ModuleId) : ∀ segment ∈ id.segments, Segment segment := id.segmented.1.each

theorem text_eq_slashed (id : ModuleId) : id.text = slashed id.segments := id.segmented.2

theorem exists_last (id : ModuleId) : ∃ above last, id.segments = above ++ [last] := by
  obtain none | ⟨above, last, split⟩ := id.segments.eq_nil_or_concat
  · exact absurd none id.segments_ne_nil
  · exact ⟨above, last, split.trans List.concat_eq_append⟩

theorem exists_of_segments {segments : List String} (h : Segmented segments) :
    ∃ id : ModuleId, id.segments = segments := by
  have absolute := absoluteFault?_eq_none_iff.mpr ⟨segments, h, rfl⟩
  exact ⟨⟨slashed segments, absolute⟩,
    segments_of_text h.nonempty (fun segment mem => (h.each segment mem).no_slash) rfl⟩

theorem segments_injective {a b : ModuleId} (same : a.segments = b.segments) : a = b := by
  apply eq_of_text
  rw [a.text_eq_slashed, b.text_eq_slashed, same]

theorem parseAbsolute_eq_ok_iff {text : String} {id : ModuleId} :
    parseAbsolute text = .ok id ↔ id.text = text := by
  unfold parseAbsolute
  split
  · next absolute =>
    rw [Except.ok.injEq]
    constructor
    · rintro rfl
      rfl
    · intro same
      exact eq_of_text same.symm
  · next fault rejected =>
    constructor
    · intro ok
      cases ok
    · rintro rfl
      rw [id.absolute] at rejected
      cases rejected

theorem ofSegments_eq_ok_iff {segments : List String} {id : ModuleId}
    (whole : ∀ segment ∈ segments, '/' ∉ segment.toList) :
    ofSegments segments = .ok id ↔ id.segments = segments := by
  rw [show ofSegments segments = parseAbsolute (slashed segments) from rfl, parseAbsolute_eq_ok_iff]
  constructor
  · intro text
    by_cases empty : segments = []
    · subst empty
      -- The text of an id is not empty.
      have none := congrArg String.toList (id.text_eq_slashed.symm.trans text)
      rw [toList_slashed, toList_slashed, List.flatMap_nil, List.flatMap_eq_nil_iff] at none
      obtain ⟨first, more, split⟩ := List.exists_cons_of_ne_nil id.segments_ne_nil
      rw [split] at none
      cases none first List.mem_cons_self
    · exact segments_of_text empty whole text
  · rintro rfl
    exact id.text_eq_slashed

theorem ofSegments_segments (id : ModuleId) : ofSegments id.segments = .ok id :=
  (ofSegments_eq_ok_iff fun segment mem => (id.segment segment mem).no_slash).mpr rfl

/-- The text of an id begins with a slash. -/
theorem text_begins (id : ModuleId) : ∃ rest, id.text.toList = '/' :: rest := by
  obtain ⟨first, more, split⟩ := List.exists_cons_of_ne_nil id.segments_ne_nil
  rw [id.text_eq_slashed, split]
  exact ⟨_, toList_slashed_cons first more⟩

/-- A text is read as it stands, or with a slash in front if it has none at all. -/
theorem parse_eq_ok_iff {text : String} {id : ModuleId} :
    parse text = .ok id ↔ id.text = text ∨ '/' ∉ text.toList ∧ id.text = "/" ++ text := by
  obtain ⟨rest, begins⟩ := id.text_begins
  unfold parse
  split
  · next empty =>
    obtain rfl : text = "" := String.toList_inj.mp empty
    constructor
    · intro ok
      cases ok
    · rintro (same | ⟨_, same⟩)
      · rw [same] at begins
        cases begins
      · have absolute := id.absolute
        rw [same] at absolute
        exact absurd absolute (by decide)
  · next more chars =>
    rw [parseAbsolute_eq_ok_iff, chars]
    simp
  · next other =>
    have differs : id.text ≠ text := by
      rintro rfl
      exact other rest begins
    by_cases slash : '/' ∈ text.toList
    · rw [if_pos (by simpa using slash)]
      simp [slash, differs]
    · rw [if_neg (by simpa using slash)]
      simp only [differs, slash, not_false_iff, true_and, false_or]
      rw [← parseAbsolute_eq_ok_iff]
      cases parseAbsolute ("/" ++ text) <;> simp

end ModuleId
end ModuleSystem
