import ModuleSystem.Proofs.Json.Layouts
import ModuleSystem.Proofs.Json.Literals

/-! What the readers of single tokens do with the beginning of a text that they would read whole. A
string, a name or a list needs its end; only a number can be read from a part of its text, and then
nothing is left over. -/

namespace ModuleSystem.Json

open Utf8 (encodeChar encodeChars encodeChars_append encodeChars_cons_append)

/-- How a text begins, if that is not all of it. -/
def Cut (part whole : List UInt8) : Prop := part <+: whole ∧ part ≠ whole

section

variable {part first second : List UInt8} {b : UInt8}

theorem not_cut_nil : ¬Cut part [] := fun cut => cut.2 (List.prefix_nil.mp cut.1)

theorem cut_cons : Cut part (b :: second) ↔ part = [] ∨ ∃ rest, part = b :: rest ∧ Cut rest second := by
  constructor
  · rintro ⟨beginning, short⟩
    obtain none | ⟨rest, rfl, within⟩ := List.prefix_cons_iff.mp beginning
    · exact .inl none
    · exact .inr ⟨rest, rfl, within, fun same => short (congrArg (b :: ·) same)⟩
  · rintro (rfl | ⟨rest, rfl, beginning, short⟩)
    · exact ⟨List.nil_prefix, List.cons_ne_nil _ _ |>.symm⟩
    · exact ⟨(List.prefix_cons_inj b).mpr beginning, fun same => short (List.cons.inj same).2⟩

/-- A text of two parts is cut in the first part or in the second one. -/
theorem cut_append :
    Cut part (first ++ second) ↔ Cut part first ∨ ∃ rest, part = first ++ rest ∧ Cut rest second := by
  induction first generalizing part with
  | nil => simp [not_cut_nil]
  | cons b first ih =>
    rw [List.cons_append, cut_cons, cut_cons]
    constructor
    · rintro (none | ⟨rest, rfl, cut⟩)
      · exact .inl (.inl none)
      · obtain cut | ⟨more, rfl, beyond⟩ := ih.mp cut
        · exact .inl (.inr ⟨rest, rfl, cut⟩)
        · exact .inr ⟨more, rfl, beyond⟩
    · rintro ((none | ⟨rest, rfl, cut⟩) | ⟨rest, rfl, cut⟩)
      · exact .inl none
      · exact .inr ⟨rest, rfl, ih.mpr (.inl cut)⟩
      · exact .inr ⟨first ++ rest, rfl, ih.mpr (.inr ⟨rest, rfl, cut⟩)⟩

theorem Cut.spaces (cut : Cut part first) (blank : Spaces first) : Spaces part := fun b mem =>
  blank b (cut.1.subset mem)

/-- What follows a number may be cut as well. -/
theorem Cut.ends (cut : Cut part first) (ends : Ends first) : Ends part := by
  intro b head
  obtain ⟨more, rfl⟩ := cut.1
  cases part with
  | nil => cases head
  | cons b' rest => exact ends b head

end

/-- An item or a name, the comma and the line before it, and what follows it. The text ends before the
item, within it, or behind it. -/
theorem cut_entry {first : Bool} {line item onward part : List UInt8} (blank : Spaces line)
    (cut : Cut part (encodeChars (comma first) ++ (line ++ (item ++ onward)))) :
    (∃ spaces, Spaces spaces ∧ (part = spaces ∨ part = encodeChars (comma first) ++ spaces)) ∨
    (∃ within, within ≠ [] ∧ Cut within item ∧
      part = encodeChars (comma first) ++ (line ++ within)) ∨
    ∃ rest, Cut rest onward ∧ part = encodeChars (comma first) ++ (line ++ (item ++ rest)) := by
  obtain before | ⟨tail, rfl, past⟩ := cut_append.mp cut
  · -- The comma is one byte, so nothing is left of it.
    refine .inl ⟨[], spaces_nil, .inl ?_⟩
    cases first with
    | true => exact absurd before not_cut_nil
    | false =>
      obtain none | ⟨_, _, beyond⟩ := cut_cons.mp before
      · exact none
      · exact absurd beyond not_cut_nil
  · obtain before | ⟨within, rfl, inside⟩ := cut_append.mp past
    · exact .inl ⟨tail, before.spaces blank, .inr rfl⟩
    · obtain short | ⟨rest, rfl, behind⟩ := cut_append.mp inside
      · by_cases none : within = []
        · subst none
          rw [List.append_nil]
          exact .inl ⟨line, blank, .inr rfl⟩
        · exact .inr (.inl ⟨within, none, short, rfl⟩)
      · exact .inr (.inr ⟨rest, behind, rfl⟩)

variable {c : Cursor} {spaces : List UInt8}

theorem rest_skipSpaces_blank (blank : Spaces c.rest) : c.skipSpaces.rest = [] :=
  Cursor.rest_skip rfl (List.append_nil _).symm blank fun b head => by cases head

/-- Wherever the bytes inside a string end, the reader stands in some state. -/
theorem Leads.cut {start last : StringState} {bytes added part : List UInt8}
    (h : Leads start bytes added last) (beginning : part <+: bytes) :
    ∃ added' mid, Leads start part added' mid := by
  induction h generalizing part with
  | stay state =>
    rw [List.prefix_nil.mp beginning]
    exact ⟨_, _, .stay state⟩
  | @step state next last b rest added more one _ ih =>
    obtain rfl | ⟨part, rfl, within⟩ := List.prefix_cons_iff.mp beginning
    · exact ⟨_, _, .stay state⟩
    · obtain ⟨added', mid, onward⟩ := ih within
      exact ⟨_, mid, .step one onward⟩

/-- A string that does not end is refused, wherever it was cut: also inside a character or inside an
escape. -/
theorem stringTail_cut {s : String} (cut : Cut c.rest (encodeChars (stringText s))) :
    ∃ e, stringTail c.advance = .error e := by
  have unfinished : ∃ added mid, Leads .plain c.advance.rest added mid := by
    rw [encodeChars_stringText] at cut
    obtain none | ⟨rest, here, cut⟩ := cut_cons.mp cut
    · refine ⟨[], .plain, ?_⟩
      rw [Cursor.advance, none]
      dsimp only
      rw [none]
      exact .stay _
    · rw [Cursor.rest_advance here]
      obtain inside | ⟨quote, rfl, ending⟩ := cut_append.mp cut
      · exact (leads_escaped s.toList).cut inside.1
      · obtain rfl | ⟨_, _, beyond⟩ := cut_cons.mp ending
        · rw [List.append_nil]
          exact ⟨_, _, leads_escaped s.toList⟩
        · exact absurd beyond not_cut_nil
  obtain ⟨added, mid, leads⟩ := unfinished
  have here : c.advance.rest = c.advance.rest ++ [] := (List.append_nil _).symm
  obtain ⟨c', _, read⟩ := leads.stringBytes [] here
  rw [List.append_nil] at read
  refine ⟨c'.faultAfter .eofString, ?_⟩
  unfold stringTail
  rw [read, stringBytes]

/-- The first digits of a number are those of a smaller one. -/
theorem toDigits_beginning {n : Nat} {part : List Char} (some : part ≠ [])
    (beginning : part <+: Nat.toDigits 10 n) : ∃ m ≤ n, part = Nat.toDigits 10 m := by
  induction n using Nat.strongRecOn with
  | ind n ih =>
    by_cases small : n < 10
    · rw [Nat.toDigits_of_lt_base small] at beginning
      obtain none | ⟨rest, rfl, nothing⟩ := List.prefix_cons_iff.mp beginning
      · exact absurd none some
      · refine ⟨n, Nat.le_refl n, ?_⟩
        rw [Nat.toDigits_of_lt_base small, List.prefix_nil.mp nothing]
    · have digits := Nat.toDigits_of_base_le (n := n) (by decide : 1 < 10) (Nat.not_lt.mp small)
      rw [digits] at beginning
      obtain whole | beginning := List.prefix_concat_iff.mp beginning
      · exact ⟨n, Nat.le_refl n, whole.trans digits.symm⟩
      · obtain ⟨m, le, shape⟩ := ih (n / 10) (by omega) beginning
        exact ⟨m, by omega, shape⟩

/-- What is left of a number is a number. -/
theorem number_cut (negative : Bool) {n : Nat} (fits : n ≤ largestWord) (some : c.rest ≠ [])
    (cut : Cut c.rest (encodeChars (Nat.toDigits 10 n))) :
    ∃ m c', number negative c = .ok (wholeNumber negative m, c') ∧ c'.rest = [] := by
  have all : ∀ n, ∀ ch ∈ Nat.toDigits 10 n, ch.isDigit = true := fun n ch mem =>
    Nat.isDigit_of_mem_toDigits (by decide) (by decide) mem
  rw [encodeChars_digits (all n)] at cut
  obtain ⟨chars, beginning, shape⟩ := List.prefix_map_iff.mp cut.1
  have begun : chars ≠ [] := by
    rintro rfl
    exact some shape
  obtain ⟨m, le, rfl⟩ := toDigits_beginning begun beginning
  have here : c.rest = encodeChars (Nat.toDigits 10 m) ++ [] := by
    rw [encodeChars_digits (all m), List.append_nil, shape]
  obtain ⟨c', read, after⟩ := number_written negative (Nat.le_trans le fits)
    (fun b head => by cases head) here
  exact ⟨m, c', read, after⟩

/-- No item follows where the text ends, with or without a comma. -/
theorem moreItems_blank {first : Bool} (blank : Spaces spaces)
    (here : c.rest = spaces ∨ c.rest = encodeChars (comma first) ++ spaces) :
    ∃ e, moreItems first c = .error e := by
  cases first with
  | true =>
    have ahead : c.rest = spaces := here.elim id id
    have none := rest_skipSpaces_blank (ahead ▸ blank)
    exact ⟨c.skipSpaces.faultAhead .eofList, by simp [moreItems, none]⟩
  | false =>
    obtain ahead | ahead := here
    · have none := rest_skipSpaces_blank (ahead ▸ blank)
      exact ⟨c.skipSpaces.faultAhead .eofList, by simp [moreItems, none]⟩
    · have first : c.rest = [] ++ ','.toUInt8 :: spaces := ahead
      have comma := Cursor.rest_skipSpaces first spaces_nil (by decide)
      have tail := Cursor.rest_advance comma
      have none := rest_skipSpaces_blank (tail.symm ▸ blank)
      have not_end : ','.toUInt8 ≠ ']'.toUInt8 := by decide
      exact ⟨c.skipSpaces.advance.skipSpaces.faultAhead .eofValue,
        by simp [moreItems, comma, none, not_end]⟩

/-- No name follows where the text ends, with or without a comma. -/
theorem nextName_blank {first : Bool} (blank : Spaces spaces)
    (here : c.rest = spaces ∨ c.rest = encodeChars (comma first) ++ spaces) :
    ∃ e, nextName first c = .error e := by
  cases first with
  | true =>
    have ahead : c.rest = spaces := here.elim id id
    have none := rest_skipSpaces_blank (ahead ▸ blank)
    exact ⟨c.skipSpaces.faultAhead .eofObject, by simp [nextName, none]⟩
  | false =>
    obtain ahead | ahead := here
    · have none := rest_skipSpaces_blank (ahead ▸ blank)
      exact ⟨c.skipSpaces.faultAhead .eofObject, by simp [nextName, none]⟩
    · have first : c.rest = [] ++ ','.toUInt8 :: spaces := ahead
      have comma := Cursor.rest_skipSpaces first spaces_nil (by decide)
      have tail := Cursor.rest_advance comma
      have none := rest_skipSpaces_blank (tail.symm ▸ blank)
      have not_end : ','.toUInt8 ≠ '\x7d'.toUInt8 := by decide
      exact ⟨c.skipSpaces.advance.skipSpaces.faultAhead .eofValue,
        by simp [nextName, comma, none, not_end]⟩

/-- A name that does not end is refused. -/
theorem nextName_cut {first : Bool} {name : String} {part : List UInt8} (blank : Spaces spaces)
    (cut : Cut part (encodeChars (stringText name)))
    (here : c.rest = encodeChars (comma first) ++ (spaces ++ part)) :
    ∃ e, nextName first c = .error e := by
  have quoted := cut
  rw [encodeChars_stringText] at quoted
  obtain rfl | ⟨rest, rfl, _⟩ := cut_cons.mp quoted
  · rw [List.append_nil] at here
    exact nextName_blank blank (.inr here)
  · have not_end : '\x22'.toUInt8 ≠ '\x7d'.toUInt8 := by decide
    cases first with
    | true =>
      have place : c.skipSpaces.rest = '\x22'.toUInt8 :: rest :=
        Cursor.rest_skipSpaces here blank (by decide)
      obtain ⟨e, refused⟩ := stringTail_cut (c := c.skipSpaces) (place.symm ▸ cut)
      exact ⟨e, by simp [nextName, place, not_end, refused, bind, Except.bind]⟩
    | false =>
      have ahead : c.rest = [] ++ ','.toUInt8 :: (spaces ++ '\x22'.toUInt8 :: rest) := here
      have comma := Cursor.rest_skipSpaces ahead spaces_nil (by decide)
      have place := Cursor.rest_skipSpaces (Cursor.rest_advance comma) blank (by decide)
      obtain ⟨e, refused⟩ := stringTail_cut (c := c.skipSpaces.advance.skipSpaces)
        (place.symm ▸ cut)
      have not_close : ','.toUInt8 ≠ '\x7d'.toUInt8 := by decide
      exact ⟨e, by simp [nextName, comma, place, not_close, refused, bind, Except.bind]⟩

theorem colon_cut (none : c.rest = []) : ∃ e, colon c = .error e := by
  have blank := rest_skipSpaces_blank (c := c) (none.symm ▸ spaces_nil)
  exact ⟨c.skipSpaces.faultAhead .eofObject, by simp [colon, blank]⟩

end ModuleSystem.Json
