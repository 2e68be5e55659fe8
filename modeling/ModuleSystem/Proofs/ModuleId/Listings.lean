import ModuleSystem.Proofs.ModuleId.Nesting
import ModuleSystem.Proofs.Order
import ModuleSystem.Proofs.Text.Encoding

/-! No character of a segment comes before the slash, so the order of texts is that of lists of
segments. -/

namespace ModuleSystem

/-- Every character of a segment comes after the slash, and is an ASCII character. -/
theorem slash_lt_of_isSegmentChar {c : Char} (h : isSegmentChar c = true) :
    '/' < c ∧ c.toNat < 0x80 := by
  rw [isSegmentChar_iff] at h
  obtain alphanum | rfl := h
  · simp only [Char.isAlphanum, Char.isAlpha, Char.isUpper, Char.isLower, Char.isDigit,
      Bool.or_eq_true, Bool.and_eq_true, decide_eq_true_eq, UInt32.le_iff_toNat_le, ge_iff_le]
      at alphanum
    change ((65 ≤ c.toNat ∧ c.toNat ≤ 90) ∨ (97 ≤ c.toNat ∧ c.toNat ≤ 122)) ∨
      (48 ≤ c.toNat ∧ c.toNat ≤ 57) at alphanum
    change 47 < c.toNat ∧ c.toNat < 0x80
    omega
  · decide

/-- Words are compared first, since the slash behind the shorter one comes before every letter. -/
theorem append_lt_append_iff {x y s t : List Char} (letters : ∀ c ∈ x, '/' < c)
    (letters' : ∀ c ∈ y, '/' < c) (behind : s = [] ∨ ∃ r, s = '/' :: r)
    (behind' : t = [] ∨ ∃ r, t = '/' :: r) : x ++ s < y ++ t ↔ x < y ∨ x = y ∧ s < t := by
  induction x generalizing y with
  | nil =>
    cases y with
    | nil => simp
    | cons d y =>
      have later := letters' d List.mem_cons_self
      obtain rfl | ⟨r, rfl⟩ := behind
      · simp
      · simp [List.cons_lt_cons_iff, later]
  | cons c x ih =>
    obtain ⟨here, letters⟩ := List.forall_mem_cons.mp letters
    cases y with
    | nil =>
      obtain rfl | ⟨r, rfl⟩ := behind'
      · simp
      · simp [List.cons_lt_cons_iff, here.asymm, here.ne']
    | cons d y =>
      have rest := ih letters (List.forall_mem_cons.mp letters').2
      rw [List.cons_append, List.cons_append, List.cons_lt_cons_iff, List.cons_lt_cons_iff, rest,
        List.cons.injEq]
      tauto

theorem Segment.letters {text : String} (h : Segment text) : ∀ c ∈ text.toList, '/' < c :=
  fun c mem => (slash_lt_of_isSegmentChar (isSegmentChar_iff.mpr (h.chars c mem))).1

theorem slashed_lt_iff {above below : List String} (each : ∀ segment ∈ above, Segment segment)
    (each' : ∀ segment ∈ below, Segment segment) : slashed above < slashed below ↔ above < below := by
  rw [String.lt_iff]
  induction above generalizing below with
  | nil => cases below <;> simp [toList_slashed]
  | cons first more ih =>
    cases below with
    | nil => simp [toList_slashed]
    | cons first' more' =>
      obtain ⟨word, each⟩ := List.forall_mem_cons.mp each
      obtain ⟨word', each'⟩ := List.forall_mem_cons.mp each'
      have words := append_lt_append_iff word.letters word'.letters (ModuleId.slashed_rest more)
        (ModuleId.slashed_rest more')
      rw [toList_slashed_cons, toList_slashed_cons, List.cons_lt_cons_iff, List.cons_lt_cons_iff, words,
        ih each each', String.lt_iff, String.toList_inj]
      simp

/-- Bytes of ASCII characters are ordered as the characters are. -/
theorem Utf8.encodeChars_lt_iff {x y : List Char} (ascii : ∀ c ∈ x, c.toNat < 0x80)
    (ascii' : ∀ c ∈ y, c.toNat < 0x80) : encodeChars x < encodeChars y ↔ x < y := by
  induction x generalizing y with
  | nil =>
    cases y with
    | nil => simp [encodeChars]
    | cons d y =>
      rw [encodeChars_cons_append, encodeChar_of_ascii (ascii' d List.mem_cons_self)]
      simp [encodeChars]
  | cons c x ih =>
    obtain ⟨here, ascii⟩ := List.forall_mem_cons.mp ascii
    rw [encodeChars_cons_append, encodeChar_of_ascii here]
    cases y with
    | nil => simp [encodeChars]
    | cons d y =>
      obtain ⟨there, ascii'⟩ := List.forall_mem_cons.mp ascii'
      have lt_iff : UInt8.ofNat c.toNat < UInt8.ofNat d.toNat ↔ c < d := by
        rw [UInt8.lt_iff_toNat_lt, UInt8.toNat_ofNat', UInt8.toNat_ofNat', Nat.mod_eq_of_lt (by omega),
          Nat.mod_eq_of_lt (by omega)]
        rfl
      have eq_iff : UInt8.ofNat c.toNat = UInt8.ofNat d.toNat ↔ c = d := by
        rw [← UInt8.toNat_inj, UInt8.toNat_ofNat', UInt8.toNat_ofNat', Nat.mod_eq_of_lt (by omega),
          Nat.mod_eq_of_lt (by omega)]
        exact Char.toNat_inj
      rw [encodeChars_cons_append, encodeChar_of_ascii there, List.singleton_append,
        List.singleton_append, List.cons_lt_cons_iff, List.cons_lt_cons_iff, lt_iff, eq_iff,
        ih ascii ascii']

namespace ModuleId

theorem lt_iff_segments {a b : ModuleId} : a < b ↔ a.segments < b.segments := by
  rw [← slashed_lt_iff a.segment b.segment, ← a.text_eq_slashed, ← b.text_eq_slashed]
  rfl

theorem text_ascii (id : ModuleId) : ∀ c ∈ id.text.toList, c.toNat < 0x80 := by
  intro c mem
  rw [id.text_eq_slashed, toList_slashed, List.mem_flatMap] at mem
  obtain ⟨segment, here, mem⟩ := mem
  obtain rfl | mem := List.mem_cons.mp mem
  · decide
  · have char := (id.segment segment here).chars c mem
    exact (slash_lt_of_isSegmentChar (isSegmentChar_iff.mpr char)).2

theorem lt_iff_bytes {a b : ModuleId} : a < b ↔ Utf8.encode a.text < Utf8.encode b.text := by
  rw [Utf8.encode, Utf8.encode, Utf8.encodeChars_lt_iff a.text_ascii b.text_ascii, ← String.lt_iff]
  rfl

/-- A listing in order. Equal ids stand side by side. -/
def InOrder (ids : List ModuleId) : Prop := ids.Pairwise fun a b => ¬b < a

theorem not_lt_of_isWithin {id base : ModuleId} (within : id.isWithin base = true) : ¬id < base := by
  rw [lt_iff_segments]
  obtain ⟨more, split⟩ := isWithin_iff.mp within
  rw [← split]
  generalize base.segments = segments
  induction segments with
  | nil => exact List.not_lt_nil _
  | cons segment segments ih =>
    rw [List.cons_append, List.cons_lt_cons_iff]
    rintro (less | ⟨_, before⟩)
    · exact String.lt_irrefl segment less
    · exact ih before

/-- A list between another one and what that one begins begins with it, too. -/
theorem prefix_of_between {first between last : List String} (low : ¬between < first)
    (high : ¬last < between) (begins : first <+: last) : first <+: between := by
  induction first generalizing between last with
  | nil => exact List.nil_prefix
  | cons segment first ih =>
    obtain ⟨more, rfl⟩ := begins
    cases between with
    | nil => exact absurd (List.nil_lt_cons _ _) low
    | cons segment' between =>
      rw [List.cons_lt_cons_iff, not_or, not_and] at low
      rw [List.cons_append, List.cons_lt_cons_iff, not_or, not_and] at high
      obtain rfl : segment' = segment := String.le_antisymm (String.not_lt.mp high.1)
        (String.not_lt.mp low.1)
      rw [List.cons_prefix_cons]
      exact ⟨rfl, ih (low.2 rfl) (high.2 rfl) (List.prefix_append _ _)⟩

/-- Whatever stands between an id and what lies below it lies below it as well. -/
theorem isWithin_of_between {base between id : ModuleId} (low : ¬between < base) (high : ¬id < between)
    (within : id.isWithin base = true) : between.isWithin base = true := by
  rw [isWithin_iff] at within ⊢
  exact prefix_of_between (lt_iff_segments.not.mp low) (lt_iff_segments.not.mp high) within

theorem nested_first {base : ModuleId} {after : List ModuleId} (later : ∀ id ∈ after, ¬id < base)
    (sorted : InOrder after) :
    ∃ nested others, after = nested ++ others ∧ (∀ id ∈ nested, id.isWithin base = true) ∧
      ∀ id ∈ others, id.isWithin base = false := by
  induction after with
  | nil => exact ⟨[], [], rfl, by simp, by simp⟩
  | cons first rest ih =>
    obtain ⟨ordered, sorted⟩ := List.pairwise_cons.mp sorted
    obtain ⟨here, later⟩ := List.forall_mem_cons.mp later
    by_cases below : first.isWithin base = true
    · obtain ⟨nested, others, rfl, within, apart⟩ := ih later sorted
      exact ⟨first :: nested, others, rfl, List.forall_mem_cons.mpr ⟨below, within⟩, apart⟩
    · refine ⟨[], first :: rest, rfl, by simp, List.forall_mem_cons.mpr ⟨by simpa using below, ?_⟩⟩
      intro id mem
      by_contra within
      apply below
      exact isWithin_of_between here (ordered id mem) (by simpa using within)

/-- In a listing, an id is followed at once by all that lies below it. -/
theorem nested_follow {before after : List ModuleId} {base : ModuleId}
    (sorted : InOrder (before ++ base :: after)) :
    ∃ nested others, after = nested ++ others ∧ (∀ id ∈ nested, id.isWithin base = true) ∧
      (∀ id ∈ others, id.isWithin base = false) ∧
      ∀ id ∈ before, id.isWithin base = true → id = base := by
  obtain ⟨_, tail, across⟩ := List.pairwise_append.mp sorted
  obtain ⟨later, inOrder⟩ := List.pairwise_cons.mp tail
  obtain ⟨nested, others, split, within, apart⟩ := nested_first later inOrder
  refine ⟨nested, others, split, within, apart, ?_⟩
  intro id mem below
  have le := across id mem base List.mem_cons_self
  by_contra differs
  exact not_lt_of_isWithin below (lt_of_not_lt le differs)

/-- Ids stand for the lists of segments that are not empty. Texts are read to them, with or without
the slash in front of a single segment, and they are printed as absolute texts; names, parents, nesting
and order are those of the lists, and what lies below an id is listed right behind it. -/
theorem stands_for_segments :
    (∀ text, (∃ id, parse text = .ok id) ↔
      ∃ segments, Segmented segments ∧ (text = slashed segments ∨ segments = [text])) ∧
    (∀ text id, parse text = .ok id → toString id = slashed id.segments ∧
      (text = slashed id.segments ∨ id.segments = [text])) ∧
    (∀ text, Segment text → parse text = parse ("/" ++ text)) ∧
    (∀ segments, Segmented segments ↔ ∃ id : ModuleId, id.segments = segments) ∧
    (∀ a : ModuleId, ofSegments a.segments = .ok a) ∧
    (∀ a : ModuleId, a.segments.getLast? = some a.name) ∧
    (∀ a : ModuleId, a.parent? = none ↔ a.segments.length = 1) ∧
    (∀ a b : ModuleId, a.parent? = some b ↔ b.segments = a.segments.dropLast) ∧
    (∀ a b : ModuleId, a.isWithin b = true ↔ b.segments <+: a.segments) ∧
    IsPartialOrder ModuleId (fun a b => a.isWithin b = true) ∧
    (∀ a b : ModuleId, a.parent? = b.parent? → a.isWithin b = true → a = b) ∧
    (∀ a b : ModuleId, a < b ↔ Utf8.encode a.text < Utf8.encode b.text) ∧
    (∀ a b : ModuleId, a < b ↔ a.segments < b.segments) ∧
    ∀ before base after, InOrder (before ++ base :: after) →
      ∃ nested others, after = nested ++ others ∧ (∀ id ∈ nested, id.isWithin base = true) ∧
        (∀ id ∈ others, id.isWithin base = false) ∧
        ∀ id ∈ before, id.isWithin base = true → id = base := by
  have read : ∀ text id, parse text = .ok id ↔
      text = slashed id.segments ∨ id.segments = [text] := by
    intro text id
    rw [parse_eq_ok_iff, id.text_eq_slashed, eq_comm]
    apply or_congr_right
    constructor
    · rintro ⟨whole, same⟩
      apply segments_of_text (List.cons_ne_nil _ _) (by simpa using whole)
      rw [id.text_eq_slashed, same, slashed_singleton]
    · intro single
      refine ⟨(id.segment text (by simp [single])).no_slash, ?_⟩
      rw [single, slashed_singleton]
  have listed : ∀ segments, Segmented segments ↔ ∃ id : ModuleId, id.segments = segments := by
    intro segments
    constructor
    · exact exists_of_segments
    · rintro ⟨id, rfl⟩
      exact id.segmented.1
  refine ⟨?_, ?_, ?_, listed, ofSegments_segments, getLast?_segments, fun a => parent?_eq_none_iff,
    fun a b => parent?_eq_some_iff, fun a b => isWithin_iff, inferInstance,
    fun a b => eq_of_isWithin_sibling, fun a b => lt_iff_bytes, fun a b => lt_iff_segments,
    fun before base after => nested_follow⟩
  · intro text
    simp only [read, listed]
    constructor
    · rintro ⟨id, either⟩
      exact ⟨_, ⟨id, rfl⟩, either⟩
    · rintro ⟨_, ⟨id, rfl⟩, either⟩
      exact ⟨id, either⟩
  · intro text id ok
    exact ⟨id.text_eq_slashed, (read text id).mp ok⟩
  · intro text segment
    obtain ⟨id, single⟩ := (listed [text]).mp ⟨List.cons_ne_nil _ _, by simpa using segment⟩
    rw [(read text id).mpr (.inr single), (read ("/" ++ text) id).mpr (.inl ?_)]
    rw [single, slashed_singleton]

/-- A module, one nested under it, and one whose name goes on where the other ends. -/
theorem stands_for_segments_nested : ∃ a ab a_b : ModuleId,
    parse "a" = .ok a ∧ parse "/a/b" = .ok ab ∧ parse "/a_b" = .ok a_b ∧
    a.segments = ["a"] ∧ ab.parent? = some a ∧ ab.isWithin a = true ∧ a_b.isWithin a = false ∧
    InOrder [a, ab, a_b] ∧ ∃ nested others, [ab, a_b] = nested ++ others ∧
      (∀ id ∈ nested, id.isWithin a = true) ∧ ∀ id ∈ others, id.isWithin a = false := by
  obtain ⟨_, _, _, _, _, _, _, parents, within, _, _, _, order, follow⟩ := stands_for_segments
  have sorted : InOrder [⟨"/a", by decide⟩, ⟨"/a/b", by decide⟩, ⟨"/a_b", by decide⟩] := by
    unfold InOrder
    simp only [List.pairwise_cons, order]
    decide
  obtain ⟨nested, others, split, below, apart, _⟩ := follow [] _ _ sorted
  refine ⟨⟨"/a", by decide⟩, ⟨"/a/b", by decide⟩, ⟨"/a_b", by decide⟩, by decide, by decide, by decide,
    by decide, ?_, ?_, by decide, sorted, nested, others, split, below, apart⟩
  · exact (parents _ _).mpr (by decide)
  · exact (within _ _).mpr (by decide)

end ModuleId
end ModuleSystem
