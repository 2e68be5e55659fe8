import ModuleSystem.Json.Document
import ModuleSystem.Proofs.Json.Cuts

/-! A decoder reads a value back when, from its text in any layout and at any level, it gives what
the value stands for and stops where the text ends. It takes no part of the text for the whole. -/

namespace ModuleSystem.Json

open Utf8 (encodeChar encodeChars encodeChars_append encodeChars_cons_append)

/-- The decoder reads the text of `j` back as `a`, whatever the layout and the level. The text begins
with neither white space nor the end of a list. From a part of it the decoder reads nothing, or a
number that leaves nothing over. -/
structure Reads {α : Type} (decode : Decoder α) (j : Json) (a : α) : Prop where
  begins : ∀ (l : Layout) (level : Nat), ∃ b rest, encodeChars (l.chars level j) = b :: rest ∧
    Cursor.isSpace b = false ∧ b ≠ ']'.toUInt8
  reads : ∀ (l : Layout) (level : Nat) (spaces rest : List UInt8) (c : Cursor), Spaces spaces →
    Ends rest → c.rest = spaces ++ (encodeChars (l.chars level j) ++ rest) →
    ∃ c', decode c = .ok (a, c') ∧ c'.rest = rest
  cut : ∀ (l : Layout) (level : Nat) (spaces : List UInt8) (c : Cursor), Spaces spaces →
    Cut c.rest (spaces ++ encodeChars (l.chars level j)) →
    ∀ a' c', decode c = .ok (a', c') → c'.rest = [] ∧ ∃ n, j = .int n

variable {α : Type}

/-- What `atValue` hands on: the place of the value itself. -/
theorem atValue_of_rest (decode : UInt8 → Decoder α) {c : Cursor} {spaces rest : List UInt8}
    {b : UInt8} (here : c.rest = spaces ++ b :: rest) (blank : Spaces spaces)
    (visible : Cursor.isSpace b = false) :
    c.skipSpaces.rest = b :: rest ∧ atValue decode c = decode b c.skipSpaces := by
  have place := Cursor.rest_skipSpaces here blank visible
  refine ⟨place, ?_⟩
  simp only [atValue, Cursor.peek?, place, List.head?_cons]

theorem atValue_blank (decode : UInt8 → Decoder α) {c : Cursor} (blank : Spaces c.rest) :
    ∃ e, atValue decode c = .error e := by
  have none := rest_skipSpaces_blank blank
  exact ⟨.placed (c.skipSpaces.faultAhead .eofValue), by simp [atValue, Cursor.peek?, none]⟩

/-- A value that was cut short is not there at all, or its first byte is handed on. -/
theorem atValue_cut (decode : UInt8 → Decoder α) {c : Cursor} {spaces whole : List UInt8} {b : UInt8}
    (cut : Cut c.rest (spaces ++ b :: whole)) (blank : Spaces spaces)
    (visible : Cursor.isSpace b = false) :
    (∃ e, atValue decode c = .error e) ∨
      ∃ part, Cut part whole ∧ c.skipSpaces.rest = b :: part ∧
        atValue decode c = decode b c.skipSpaces := by
  obtain within | ⟨rest, here, cut⟩ := cut_append.mp cut
  · exact .inl (atValue_blank decode (within.spaces blank))
  · obtain rfl | ⟨part, rfl, within⟩ := cut_cons.mp cut
    · rw [List.append_nil] at here
      exact .inl (atValue_blank decode (here ▸ blank))
    · exact .inr ⟨part, within, atValue_of_rest decode here blank visible⟩

namespace Reads

/-- Decoders that begin with a string, and refuse one that does not end. -/
theorem of_string {decode : UInt8 → Decoder α} {s : String} {a : α}
    (whole : ∀ (c : Cursor) (rest : List UInt8), Ends rest →
      c.rest = encodeChars (stringText s) ++ rest →
      ∃ c', decode '\x22'.toUInt8 c = .ok (a, c') ∧ c'.rest = rest)
    (part : ∀ c : Cursor, Cut c.rest (encodeChars (stringText s)) →
      ∃ e, decode '\x22'.toUInt8 c = .error e) :
    Reads (atValue decode) (.string s) a := by
  have text : ∀ (l : Layout) level, encodeChars (l.chars level (.string s)) = '\x22'.toUInt8 ::
      (encodeChars (s.toList.flatMap escapeChar) ++ ['\x22'.toUInt8]) := by
    intro l level
    rw [Layout.chars, compactChars, encodeChars_stringText]
  refine ⟨fun l level => ⟨_, _, text l level, by decide, by decide⟩, ?_, ?_⟩
  · intro l level spaces rest c blank ends here
    rw [text, List.cons_append] at here
    obtain ⟨place, at_value⟩ := atValue_of_rest decode here blank (by decide)
    rw [at_value]
    refine whole _ rest ends ?_
    rw [place, encodeChars_stringText, List.cons_append]
  · intro l level spaces c blank cut a' c' read
    rw [text] at cut
    obtain ⟨e, refused⟩ | ⟨rest, within, place, at_value⟩ := atValue_cut decode cut blank (by decide)
    · rw [refused] at read
      cases read
    · obtain ⟨e, refused⟩ := part c.skipSpaces (by
        rw [place, encodeChars_stringText]
        exact cut_cons.mpr (.inr ⟨rest, rfl, within⟩))
      rw [at_value, refused] at read
      cases read

theorem text (s : String) : Reads Json.text (.string s) s := by
  refine of_string (fun c rest _ here => ?_) fun c cut => ?_
  · obtain ⟨c', read, after⟩ := stringTail_of_text here
    refine ⟨c', ?_, after⟩
    simp only [if_true, read, placed]
  · obtain ⟨e, refused⟩ := stringTail_cut cut
    exact ⟨.placed e, by simp only [if_true, refused, placed]⟩

theorem choiceName {choices : List (String × α)} {name : String} {a : α}
    (offered : choices.lookup name = some a) :
    Reads (Json.choiceName choices) (.string name) a := by
  refine of_string (fun c rest _ here => ?_) fun c cut => ?_
  · obtain ⟨c', read, after⟩ := stringTail_of_text here
    refine ⟨c', ?_, after⟩
    simp only [if_true, read, placed, bind, Except.bind, offered]
    rfl
  · obtain ⟨e, refused⟩ := stringTail_cut cut
    exact ⟨.placed e, by simp only [if_true, refused, placed, bind, Except.bind]⟩

theorem choice {choices : List (String × α)} {name : String} {a : α}
    (offered : choices.lookup name = some a) : Reads (Json.choice choices) (.string name) a := by
  have named := choiceName offered
  have text : encodeChars (Layout.compact.chars 0 (.string name)) = encodeChars (stringText name) := by
    rw [Layout.chars, compactChars]
  refine of_string (fun c rest ends here => ?_) fun c cut => ?_
  · simp only [if_true]
    refine named.reads .compact 0 [] rest c spaces_nil ends ?_
    rw [text]
    exact here
  · simp only [if_true]
    cases read : Json.choiceName choices c with
    | error e => exact ⟨e, rfl⟩
    | ok out =>
      obtain ⟨_, n, other⟩ := named.cut .compact 0 [] c spaces_nil (by rwa [text]) out.1 out.2 read
      cases other

theorem digit_begins (n : Nat) :
    ∃ b rest, encodeChars (Nat.toDigits 10 n) = b :: rest ∧ Cursor.isDigit b = true := by
  have all : ∀ ch ∈ Nat.toDigits 10 n, ch.isDigit = true := fun ch mem =>
    Nat.isDigit_of_mem_toDigits (by decide) (by decide) mem
  obtain ⟨ch, more, shape⟩ := List.exists_cons_of_ne_nil (Nat.toDigits_ne_nil (n := n) (b := 10))
  rw [encodeChars_digits all, shape, List.map_cons]
  exact ⟨_, _, rfl, isDigit_toUInt8 (all ch (shape ▸ List.mem_cons_self))⟩

theorem visible_of_isDigit {b : UInt8} (h : Cursor.isDigit b = true) :
    Cursor.isSpace b = false ∧ b ≠ ']'.toUInt8 ∧ b ≠ '-'.toUInt8 := by
  have range : 48 ≤ b.toNat ∧ b.toNat ≤ 57 := by
    rw [Cursor.isDigit, Bool.and_eq_true, decide_eq_true_eq, decide_eq_true_eq,
      UInt8.le_iff_toNat_le, UInt8.le_iff_toNat_le] at h
    exact h
  have other : ∀ b' : UInt8, b'.toNat < 48 ∨ 57 < b'.toNat → b ≠ b' := by
    rintro b' outside rfl
    omega
  refine ⟨?_, other _ (by decide), other _ (by decide)⟩
  simp only [Cursor.isSpace, other ' '.toUInt8 (by decide), other '\n'.toUInt8 (by decide),
    other '\t'.toUInt8 (by decide), other '\r'.toUInt8 (by decide), decide_false, Bool.or_self]

theorem natural {n bound : Nat} (expected : String) (small : n < bound) (fits : n ≤ largestWord) :
    Reads (Json.natural bound expected) (.int n) n := by
  obtain ⟨b, more, begins, digit⟩ := digit_begins n
  obtain ⟨visible, not_end, not_minus⟩ := visible_of_isDigit digit
  have text : ∀ (l : Layout) level, encodeChars (l.chars level (.int n)) = b :: more := by
    intro l level
    rw [Layout.chars, compactChars, intText, if_neg (by omega)]
    exact begins
  refine ⟨fun l level => ⟨b, more, text l level, visible, not_end⟩, ?_, ?_⟩
  · intro l level spaces rest c blank ends here
    rw [text, List.cons_append] at here
    obtain ⟨place, at_value⟩ := atValue_of_rest _ here blank visible
    obtain ⟨c', read, after⟩ := number_written false fits ends (c := c.skipSpaces)
      (by rw [place, begins, List.cons_append])
    refine ⟨c', ?_, after⟩
    have inside : (0 : Int) ≤ n ∧ (n : Int) < bound := by omega
    have whole : wholeNumber false n = .int n := rfl
    rw [Json.natural, at_value]
    simp only [if_neg not_minus, digit, if_true, read, placed, bind, Except.bind, whole,
      if_pos inside, Int.toNat_natCast]
  · intro l level spaces c blank cut a' c' read
    refine ⟨?_, n, rfl⟩
    rw [text] at cut
    rw [Json.natural] at read
    obtain ⟨e, refused⟩ | ⟨part, within, place, at_value⟩ := atValue_cut _ cut blank visible
    · rw [refused] at read
      cases read
    · obtain ⟨m, c₁, number, after⟩ := number_cut false fits (c := c.skipSpaces)
        (by rw [place]; exact List.cons_ne_nil _ _)
        (by rw [place, begins]; exact cut_cons.mpr (.inr ⟨part, rfl, within⟩))
      have whole : wholeNumber false m = .int m := rfl
      rw [at_value] at read
      simp only [if_neg not_minus, digit, if_true, number, placed, bind, Except.bind, whole] at read
      split at read
      · cases read
        exact after
      · cases read

theorem map {β : Type} {decode : Decoder α} {j : Json} {a : α} (h : Reads decode j a) (f : α → β) :
    Reads (fun c => do
      let (a, c) ← decode c
      return (f a, c)) j (f a) := by
  refine ⟨h.begins, ?_, ?_⟩
  · intro l level spaces rest c blank ends here
    obtain ⟨c', read, after⟩ := h.reads l level spaces rest c blank ends here
    refine ⟨c', ?_, after⟩
    simp only [read, bind, Except.bind]
    rfl
  · intro l level spaces c blank cut a' c' read
    obtain ⟨out, decoded, same⟩ := Except.of_bind_ok read
    cases same
    exact h.cut l level spaces c blank cut out.1 out.2 decoded

end Reads

/-- White space and the end of a list or record end a number as well. -/
theorem ends_of_spaces {spaces rest : List UInt8} (blank : Spaces spaces) (ends : Ends rest) :
    Ends (spaces ++ rest) := by
  cases spaces with
  | nil => exact ends
  | cons b more =>
    have space := blank b List.mem_cons_self
    intro b' first
    cases first
    simp only [Cursor.isSpace, Bool.or_eq_true, decide_eq_true_eq] at space
    obtain ((rfl | rfl) | rfl) | rfl := space <;> decide

theorem ends_cons {b : UInt8} {rest : List UInt8} (digit : Cursor.isDigit b = false)
    (point : b ≠ '.'.toUInt8) (small : b ≠ 'e'.toUInt8) (large : b ≠ 'E'.toUInt8) :
    Ends (b :: rest) := by
  intro b' first
  cases first
  exact ⟨digit, point, small, large⟩

theorem ends_close {spaces rest : List UInt8} {b : UInt8} (blank : Spaces spaces)
    (close : b = ']'.toUInt8 ∨ b = '\x7d'.toUInt8) : Ends (spaces ++ b :: rest) := by
  apply ends_of_spaces blank
  obtain rfl | rfl := close <;> exact ends_cons (by decide) (by decide) (by decide) (by decide)

/-- So does a comma before what is left of a list or record. -/
theorem ends_items (l : Layout) (level : Nat) (items : List Json) {rest : List UInt8}
    (ends : Ends rest) : Ends (encodeChars (l.itemsChars level false items) ++ rest) := by
  cases items with
  | nil => exact ends
  | cons j more => exact ends_cons (by decide) (by decide) (by decide) (by decide)

theorem ends_fields (l : Layout) (level : Nat) (fields : List (String × Json)) {rest : List UInt8}
    (ends : Ends rest) : Ends (encodeChars (l.fieldsChars level false fields) ++ rest) := by
  cases fields with
  | nil => exact ends
  | cons field more => exact ends_cons (by decide) (by decide) (by decide) (by decide)

/-! ### Lists -/

section Items

variable {spaces rest : List UInt8} {c : Cursor}

theorem moreItems_end (first : Bool) (blank : Spaces spaces)
    (here : c.rest = spaces ++ ']'.toUInt8 :: rest) :
    ∃ c', moreItems first c = .ok (false, c') ∧ c'.rest = ']'.toUInt8 :: rest := by
  have place := Cursor.rest_skipSpaces here blank (by decide)
  exact ⟨c.skipSpaces, by simp [moreItems, place], place⟩

theorem moreItems_item (first : Bool) {b : UInt8} (blank : Spaces spaces)
    (visible : Cursor.isSpace b = false) (other : b ≠ ']'.toUInt8)
    (here : c.rest = encodeChars (comma first) ++ (spaces ++ b :: rest)) :
    ∃ c', moreItems first c = .ok (true, c') ∧ c'.rest = b :: rest := by
  cases first with
  | true =>
    have place := Cursor.rest_skipSpaces here blank visible
    exact ⟨c.skipSpaces, by simp [moreItems, place, other], place⟩
  | false =>
    have first : c.rest = [] ++ ','.toUInt8 :: (spaces ++ b :: rest) := here
    have comma := Cursor.rest_skipSpaces first spaces_nil (by decide)
    have place := Cursor.rest_skipSpaces (Cursor.rest_advance comma) blank visible
    refine ⟨_, ?_, place⟩
    have not_end : ','.toUInt8 ≠ ']'.toUInt8 := by decide
    simp [moreItems, comma, place, other, not_end]

end Items

section Elements

variable {element : Decoder α} {toJson : α → Json} {l : Layout} {level : Nat}
  {spaces rest : List UInt8} {items : List α}

/-- The items that are left, and the end of the list. -/
theorem itemsChars_cons (first : Bool) (j : Json) (more : List Json) :
    encodeChars (l.itemsChars level first (j :: more)) ++ rest =
      encodeChars (comma first) ++ (encodeChars (l.line level) ++ (encodeChars (l.chars level j) ++
        (encodeChars (l.itemsChars level false more) ++ rest))) := by
  rw [Layout.itemsChars]
  simp only [encodeChars_append, List.append_assoc]

theorem elements_written (reads : ∀ a ∈ items, Reads element (toJson a) a)
    (blank : Spaces spaces) {fuel : Nat} (enough : items.length < fuel) (first : Bool)
    (read : List α) {c : Cursor}
    (here : c.rest = encodeChars (l.itemsChars level first (items.map toJson)) ++
      (spaces ++ ']'.toUInt8 :: rest)) :
    ∃ c', elements element fuel first read c = .ok (read.reverse ++ items, c') ∧ c'.rest = rest := by
  induction items generalizing fuel first read c with
  | nil =>
    obtain ⟨fuel, rfl⟩ := Nat.exists_eq_add_one.mpr enough
    obtain ⟨c₁, ended, after⟩ := moreItems_end first blank here
    refine ⟨c₁.advance, ?_, Cursor.rest_advance after⟩
    simp only [elements, ended, placed, bind, Except.bind]
    rw [List.append_nil]
    rfl
  | cons a more ih =>
    obtain ⟨fuel, rfl⟩ := Nat.exists_eq_add_one.mpr (Nat.lt_of_le_of_lt (Nat.zero_le _) enough)
    have item := reads a List.mem_cons_self
    obtain ⟨b, tail, begins, visible, other⟩ := item.begins l level
    have ends : Ends (_ ++ (spaces ++ ']'.toUInt8 :: rest)) :=
      ends_items l level (more.map toJson) (ends_close blank (.inl rfl))
    rw [List.map_cons, itemsChars_cons, begins, List.cons_append] at here
    obtain ⟨c₁, asked, place⟩ := moreItems_item first (l.spaces_line level) visible other here
    obtain ⟨c₂, decoded, after⟩ := item.reads l level [] _ c₁ spaces_nil ends
      (by rw [place, begins, List.cons_append, List.nil_append])
    obtain ⟨c₃, rest_read, done⟩ := ih (fun a mem => reads a (List.mem_cons_of_mem _ mem))
      (Nat.lt_of_succ_lt_succ enough) false (a :: read) after
    refine ⟨c₃, ?_, done⟩
    simp only [elements, asked, placed, bind, Except.bind, if_true, decoded, rest_read,
      List.reverse_cons, List.append_assoc, List.singleton_append]

theorem elements_blank (element : Decoder α) (fuel : Nat) (first : Bool) (read : List α)
    {c : Cursor} (blank : Spaces spaces)
    (here : c.rest = spaces ∨ c.rest = encodeChars (comma first) ++ spaces) :
    ∃ e, elements element fuel first read c = .error e := by
  cases fuel with
  | zero => exact ⟨_, rfl⟩
  | succ fuel =>
    obtain ⟨e, refused⟩ := moreItems_blank blank here
    exact ⟨.placed e, by simp only [elements, refused, placed, bind, Except.bind]⟩

/-- A list that does not end is refused: it ends in white space, within an item or between two. -/
theorem elements_cut (reads : ∀ a ∈ items, Reads element (toJson a) a)
    (blank : Spaces spaces) (fuel : Nat) (first : Bool) (read : List α) {c : Cursor}
    (cut : Cut c.rest (encodeChars (l.itemsChars level first (items.map toJson)) ++
      (spaces ++ [']'.toUInt8]))) :
    ∃ e, elements element fuel first read c = .error e := by
  induction items generalizing fuel first read c with
  | nil =>
    have empty : encodeChars (l.itemsChars level first (([] : List α).map toJson)) = [] := by
      rw [List.map_nil, Layout.itemsChars]
      rfl
    rw [empty, List.nil_append] at cut
    obtain within | ⟨rest, here, ending⟩ := cut_append.mp cut
    · exact elements_blank element fuel first read (within.spaces blank) (.inl rfl)
    · obtain rfl | ⟨_, _, beyond⟩ := cut_cons.mp ending
      · exact elements_blank element fuel first read blank (.inl (by rw [here, List.append_nil]))
      · exact absurd beyond not_cut_nil
  | cons a more ih =>
    obtain _ | fuel := fuel
    · exact ⟨_, rfl⟩
    have item := reads a List.mem_cons_self
    obtain ⟨b, tail, begins, visible, other⟩ := item.begins l level
    rw [List.map_cons, itemsChars_cons] at cut
    obtain ⟨spaces, blank, here⟩ | ⟨within, some, short, here⟩ | ⟨rest, cut, here⟩ :=
      cut_entry (l.spaces_line level) cut
    · exact elements_blank element (fuel + 1) first read blank here
    · -- Whatever is read of the item, nothing is left for the end of the list.
      have item_text := short
      rw [begins] at short
      obtain none | ⟨part, rfl, _⟩ := cut_cons.mp short
      · exact absurd none some
      obtain ⟨c₁, asked, place⟩ := moreItems_item first (l.spaces_line level) visible other here
      cases decoded : element c₁ with
      | error e =>
        exact ⟨e, by simp only [elements, asked, placed, bind, Except.bind, if_true, decoded]⟩
      | ok out =>
        obtain ⟨none, _⟩ := item.cut l level [] c₁ spaces_nil (by rwa [place]) out.1 out.2 decoded
        obtain ⟨e, refused⟩ := elements_blank element fuel false (out.1 :: read) spaces_nil
          (.inl none)
        exact ⟨e, by simp only [elements, asked, placed, bind, Except.bind, if_true, decoded,
          refused]⟩
    · have whole : Ends (_ ++ (spaces ++ [']'.toUInt8])) :=
        ends_items l level (more.map toJson) (ends_close blank (.inl rfl))
      have ends := cut.ends whole
      rw [begins, List.cons_append] at here
      obtain ⟨c₁, asked, place⟩ := moreItems_item first (l.spaces_line level) visible other here
      obtain ⟨c₂, decoded, after⟩ := item.reads l level [] _ c₁ spaces_nil ends
        (by rw [place, begins, List.cons_append, List.nil_append])
      obtain ⟨e, refused⟩ := ih (fun a mem => reads a (List.mem_cons_of_mem _ mem)) fuel false
        (a :: read) (after.symm ▸ cut)
      exact ⟨e, by simp only [elements, asked, placed, bind, Except.bind, if_true, decoded,
        refused]⟩

end Elements

/-- There are no more items than bytes in their text. -/
theorem length_le_itemsChars (l : Layout) (level : Nat) (first : Bool) (items : List Json)
    (visible : ∀ j ∈ items, encodeChars (l.chars level j) ≠ []) :
    items.length ≤ (encodeChars (l.itemsChars level first items)).length := by
  induction items generalizing first with
  | nil => exact Nat.zero_le _
  | cons j rest ih =>
    have one := List.length_pos_iff.mpr (visible j List.mem_cons_self)
    have := ih false fun j mem => visible j (List.mem_cons_of_mem _ mem)
    simp only [Layout.itemsChars, encodeChars_append, List.length_append, List.length_cons]
    omega

namespace Reads

theorem sequence {element : Decoder α} {toJson : α → Json} {items : List α}
    (h : ∀ a ∈ items, Reads element (toJson a) a) :
    Reads (Json.sequence element) (.array (items.map toJson)) items := by
  have text : ∀ (l : Layout) level, encodeChars (l.chars level (.array (items.map toJson))) =
      '['.toUInt8 :: (encodeChars (l.itemsChars (level + 1) true (items.map toJson)) ++
        (encodeChars (l.lastLine level (items.map toJson)) ++ [']'.toUInt8])) := by
    intro l level
    rw [Layout.chars, encodeChars_cons_append, encodeChars_append, encodeChars_append]
    rfl
  refine ⟨fun l level => ⟨_, _, text l level, by decide, by decide⟩, ?_, ?_⟩
  · intro l level spaces rest c blank ends here
    rw [text, List.cons_append, List.append_assoc, List.append_assoc] at here
    obtain ⟨place, at_value⟩ := atValue_of_rest _ here blank (by decide)
    have few := length_le_itemsChars l (level + 1) true (items.map toJson) fun j mem => by
      obtain ⟨a, listed, rfl⟩ := List.mem_map.mp mem
      obtain ⟨b, tail, begins, _⟩ := (h a listed).begins l (level + 1)
      rw [begins]
      exact List.cons_ne_nil _ _
    have enough : items.length < fuelFor c.skipSpaces := by
      rw [List.length_map] at few
      simp only [fuelFor, place, List.length_cons, List.length_append]
      omega
    have inside := Cursor.rest_advance place
    obtain ⟨c', read, after⟩ := elements_written h (l.spaces_lastLine level (items.map toJson))
      enough true [] inside
    refine ⟨c', ?_, after⟩
    rw [Json.sequence, at_value]
    simp only [if_true, read, placedBy, List.reverse_nil, List.nil_append]
  · intro l level spaces c blank cut a' c' read
    rw [text] at cut
    rw [Json.sequence] at read
    obtain ⟨e, refused⟩ | ⟨part, within, place, at_value⟩ := atValue_cut _ cut blank (by decide)
    · rw [refused] at read
      cases read
    · obtain ⟨e, refused⟩ := elements_cut h (l.spaces_lastLine level (items.map toJson))
        (fuelFor c.skipSpaces) true [] (c := c.skipSpaces.advance)
        (by rw [Cursor.rest_advance place]; exact within)
      rw [at_value] at read
      simp only [if_true, refused] at read
      cases e <;> cases read

end Reads

/-! ### Records -/

/-- There are no more fields than bytes in their text. -/
theorem length_le_fieldsChars (l : Layout) (level : Nat) (first : Bool)
    (fields : List (String × Json)) :
    fields.length ≤ (encodeChars (l.fieldsChars level first fields)).length := by
  induction fields generalizing first with
  | nil => exact Nat.zero_le _
  | cons field rest ih =>
    have colon : 1 ≤ (encodeChar ':').length := by decide
    have := ih false
    simp only [Layout.fieldsChars, encodeChars_append, encodeChars_cons_append, List.length_append,
      List.length_cons]
    omega

section Names

variable {spaces rest : List UInt8} {c : Cursor}

theorem nextName_end (first : Bool) (blank : Spaces spaces)
    (here : c.rest = spaces ++ '\x7d'.toUInt8 :: rest) :
    ∃ c', nextName first c = .ok (none, c') ∧ c'.rest = '\x7d'.toUInt8 :: rest := by
  have place := Cursor.rest_skipSpaces here blank (by decide)
  exact ⟨c.skipSpaces, by simp [nextName, place], place⟩

theorem nextName_field (first : Bool) {name : String} (blank : Spaces spaces)
    (here : c.rest = encodeChars (comma first) ++
      (spaces ++ (encodeChars (stringText name) ++ rest))) :
    ∃ c', nextName first c = .ok (some name, c') ∧ c'.rest = rest := by
  have not_end : '\x22'.toUInt8 ≠ '\x7d'.toUInt8 := by decide
  rw [encodeChars_stringText, List.cons_append] at here
  cases first with
  | true =>
    have place := Cursor.rest_skipSpaces here blank (by decide)
    obtain ⟨c', read, after⟩ := stringTail_of_text (s := name) (c := c.skipSpaces)
      (by rw [place, encodeChars_stringText, List.cons_append])
    exact ⟨c', by simp [nextName, place, not_end, read, bind, Except.bind, pure,
      Except.pure], after⟩
  | false =>
    have first : c.rest = [] ++ ','.toUInt8 :: _ := here
    have comma := Cursor.rest_skipSpaces first spaces_nil (by decide)
    have place := Cursor.rest_skipSpaces (Cursor.rest_advance comma) blank (by decide)
    obtain ⟨c', read, after⟩ := stringTail_of_text (s := name)
      (c := c.skipSpaces.advance.skipSpaces)
      (by rw [place, encodeChars_stringText, List.cons_append])
    have not_close : ','.toUInt8 ≠ '\x7d'.toUInt8 := by decide
    exact ⟨c', by simp [nextName, comma, place, not_close, read, bind, Except.bind, pure,
      Except.pure], after⟩

theorem colon_written (here : c.rest = ':'.toUInt8 :: rest) :
    ∃ c', colon c = .ok c' ∧ c'.rest = rest := by
  have ahead : c.rest = [] ++ ':'.toUInt8 :: rest := here
  have place := Cursor.rest_skipSpaces ahead spaces_nil (by decide)
  exact ⟨c.skipSpaces.advance, by simp [colon, place], Cursor.rest_advance place⟩

end Names

section Fields

variable {l : Layout} {level : Nat} {spaces rest : List UInt8}

/-- The fields that are left, and the end of the record. -/
theorem fieldsChars_cons (first : Bool) (name : String) (j : Json) (more : List (String × Json)) :
    encodeChars (l.fieldsChars level first ((name, j) :: more)) ++ rest =
      encodeChars (comma first) ++ (encodeChars (l.line level) ++ (encodeChars (stringText name) ++
        (':'.toUInt8 :: (encodeChars l.gap ++ (encodeChars (l.chars level j) ++
          (encodeChars (l.fieldsChars level false more) ++ rest)))))) := by
  rw [Layout.fieldsChars]
  simp only [encodeChars_append, encodeChars_cons_append, List.append_assoc]
  rfl

/-- Written fields that fill what is known of a record, each of them once. -/
inductive Fills {σ α : Type} (shape : Shape σ α) : σ → List (String × Json) → σ → Prop
  | done (s : σ) : Fills shape s [] s
  | field {s next last : σ} {slot : Slot σ} {name : String} {j : Json}
      {rest : List (String × Json)} (known : shape.slots.find? (·.name == name) = some slot)
      (unfilled : slot.filled s = false) (reads : Reads (slot.read s) j next)
      (onward : Fills shape next rest last) : Fills shape s ((name, j) :: rest) last

variable {σ : Type} {shape : Shape σ α} {s last : σ} {fields : List (String × Json)}

/-- A field that is known and not filled yet: its colon, its value, and the fields after it. -/
theorem named_field (fuel : Nat) {first : Bool} {slot : Slot σ} {name : String} {c c₁ : Cursor}
    (asked : nextName first c = .ok (some name, c₁))
    (known : shape.slots.find? (·.name == name) = some slot) (unfilled : slot.filled s = false) :
    shape.named (fuel + 1) first s c = (placed (colon c₁) >>= fun c₂ => slot.read s c₂ >>= fun out =>
      shape.named fuel false out.1 out.2) := by
  simp only [Shape.named, asked, placed, bind, Except.bind, known, unfilled, Bool.false_eq_true,
    if_false]

theorem Fills.named (h : Fills shape s fields last) (blank : Spaces spaces) {fuel : Nat}
    (enough : fields.length < fuel) (first : Bool) {c : Cursor}
    (here : c.rest = encodeChars (l.fieldsChars level first fields) ++
      (spaces ++ '\x7d'.toUInt8 :: rest)) :
    ∃ c', shape.named fuel first s c = .ok (last, c') ∧ c'.rest = '\x7d'.toUInt8 :: rest := by
  induction h generalizing fuel first c with
  | done s =>
    obtain ⟨fuel, rfl⟩ := Nat.exists_eq_add_one.mpr enough
    obtain ⟨c₁, ended, after⟩ := nextName_end first blank here
    refine ⟨c₁, ?_, after⟩
    simp only [Shape.named, ended, placed, bind, Except.bind]
    rfl
  | @field s next last slot name j more known unfilled reads _ ih =>
    obtain ⟨fuel, rfl⟩ := Nat.exists_eq_add_one.mpr (Nat.lt_of_le_of_lt (Nat.zero_le _) enough)
    rw [fieldsChars_cons] at here
    obtain ⟨c₁, asked, after_name⟩ := nextName_field first (l.spaces_line level) here
    obtain ⟨c₂, colon, after_colon⟩ := colon_written after_name
    obtain ⟨c₃, filled, after⟩ := reads.reads l level _ _ c₂ l.spaces_gap
      (ends_fields l level more (ends_close blank (.inr rfl))) after_colon
    obtain ⟨c₄, rest_read, done⟩ := ih (Nat.lt_of_succ_lt_succ enough) false after
    refine ⟨c₄, ?_, done⟩
    simp only [named_field _ asked known unfilled, placed, bind, Except.bind, colon, filled,
      rest_read]

theorem named_blank (shape : Shape σ α) (fuel : Nat) (first : Bool) (s : σ) {c : Cursor}
    (blank : Spaces spaces) (here : c.rest = spaces ∨ c.rest = encodeChars (comma first) ++ spaces) :
    ∃ e, shape.named fuel first s c = .error e := by
  cases fuel with
  | zero => exact ⟨_, rfl⟩
  | succ fuel =>
    obtain ⟨e, refused⟩ := nextName_blank blank here
    exact ⟨.placed e, by simp only [Shape.named, refused, placed, bind, Except.bind]⟩

/-- A record that does not end is refused: it ends in white space, within a name, before a colon,
within a value or between two fields. -/
theorem Fills.named_cut (h : Fills shape s fields last) (blank : Spaces spaces) (fuel : Nat)
    (first : Bool) {c : Cursor} (cut : Cut c.rest (encodeChars (l.fieldsChars level first fields) ++
      (spaces ++ ['\x7d'.toUInt8]))) :
    ∃ e, shape.named fuel first s c = .error e := by
  induction h generalizing fuel first c with
  | done s =>
    have empty : encodeChars (l.fieldsChars level first []) = [] := by
      rw [Layout.fieldsChars]
      rfl
    rw [empty, List.nil_append] at cut
    obtain within | ⟨rest, here, ending⟩ := cut_append.mp cut
    · exact named_blank shape fuel first s (within.spaces blank) (.inl rfl)
    · obtain rfl | ⟨_, _, beyond⟩ := cut_cons.mp ending
      · exact named_blank shape fuel first s blank (.inl (by rw [here, List.append_nil]))
      · exact absurd beyond not_cut_nil
  | @field s next last slot name j more known unfilled reads _ ih =>
    obtain _ | fuel := fuel
    · exact ⟨_, rfl⟩
    rw [fieldsChars_cons] at cut
    obtain ⟨spaces, blank, here⟩ | ⟨within, _, short, here⟩ | ⟨rest, cut, here⟩ :=
      cut_entry (l.spaces_line level) cut
    · exact named_blank shape (fuel + 1) first s blank here
    · obtain ⟨e, refused⟩ := nextName_cut (l.spaces_line level) short here
      exact ⟨.placed e, by simp only [Shape.named, refused, placed, bind, Except.bind]⟩
    obtain ⟨c₁, asked, after_name⟩ := nextName_field first (l.spaces_line level) here
    obtain rfl | ⟨rest, rfl, after_colon⟩ := cut_cons.mp cut
    · obtain ⟨e, refused⟩ := colon_cut after_name
      refine ⟨.placed e, ?_⟩
      simp only [named_field _ asked known unfilled, placed, bind, Except.bind, refused]
    obtain ⟨c₂, colon, place⟩ := colon_written after_name
    rw [← List.append_assoc] at after_colon
    obtain within | ⟨tail, rfl, behind⟩ := cut_append.mp after_colon
    · -- Whatever is read of the value, nothing is left for the end of the record.
      cases filled : slot.read s c₂ with
      | error e =>
        refine ⟨e, ?_⟩
        simp only [named_field _ asked known unfilled, placed, bind, Except.bind, colon, filled]
      | ok out =>
        obtain ⟨none, _⟩ := reads.cut l level _ c₂ l.spaces_gap (by rwa [place]) out.1 out.2 filled
        obtain ⟨e, refused⟩ := named_blank shape fuel false out.1 spaces_nil (.inl none)
        refine ⟨e, ?_⟩
        simp only [named_field _ asked known unfilled, placed, bind, Except.bind, colon, filled,
          refused]
    · rw [List.append_assoc] at place
      obtain ⟨c₃, filled, after⟩ := reads.reads l level _ _ c₂ l.spaces_gap
        (behind.ends (ends_fields l level more (ends_close blank (.inr rfl)))) place
      obtain ⟨e, refused⟩ := ih fuel false (after.symm ▸ behind)
      refine ⟨e, ?_⟩
      simp only [named_field _ asked known unfilled, placed, bind, Except.bind, colon, filled,
        refused]

end Fields

namespace Reads

theorem record {σ : Type} {shape : Shape σ α} (last : σ) {fields : List (String × Json)} {a : α}
    (fills : Fills shape shape.blank fields last) (finish : shape.finish last = .ok a) :
    Reads shape.decode (.object fields) a := by
  have text : ∀ (l : Layout) level, encodeChars (l.chars level (.object fields)) = '\x7b'.toUInt8 ::
      (encodeChars (l.fieldsChars (level + 1) true fields) ++
        (encodeChars (l.lastLine level fields) ++ ['\x7d'.toUInt8])) := by
    intro l level
    rw [Layout.chars, encodeChars_cons_append, encodeChars_append, encodeChars_append]
    rfl
  have not_list : '\x7b'.toUInt8 ≠ '['.toUInt8 := by decide
  refine ⟨fun l level => ⟨_, _, text l level, by decide, by decide⟩, ?_, ?_⟩
  · intro l level spaces rest c blank ends here
    rw [text, List.cons_append, List.append_assoc, List.append_assoc] at here
    obtain ⟨place, at_value⟩ := atValue_of_rest _ here blank (by decide)
    have few := length_le_fieldsChars l (level + 1) true fields
    have enough : fields.length < fuelFor c.skipSpaces := by
      simp only [fuelFor, place, List.length_cons, List.length_append]
      omega
    have inside := Cursor.rest_advance place
    obtain ⟨c', read, after⟩ := fills.named (l.spaces_lastLine level fields) enough true inside
    refine ⟨c'.advance, ?_, Cursor.rest_advance after⟩
    rw [Shape.decode, at_value]
    simp only [if_neg not_list, if_true, read, bind, Except.bind, Shape.finished, finish, placedBy]
    rfl
  · intro l level spaces c blank cut a' c' read
    rw [text] at cut
    rw [Shape.decode] at read
    obtain ⟨e, refused⟩ | ⟨part, within, place, at_value⟩ := atValue_cut _ cut blank (by decide)
    · rw [refused] at read
      cases read
    · obtain ⟨e, refused⟩ := fills.named_cut (l.spaces_lastLine level fields)
        (fuelFor c.skipSpaces) true (c := c.skipSpaces.advance)
        (by rw [Cursor.rest_advance place]; exact within)
      rw [at_value] at read
      simp only [if_neg not_list, if_true, refused, bind, Except.bind] at read
      cases e <;> cases read

section

variable {decode : Decoder α} {j : Json} {a : α}

/-- A whole document comes back. -/
theorem document (h : Reads decode j a) (l : Layout) :
    decodeDocument decode (encodeChars (l.chars 0 j)) = .ok a := by
  obtain ⟨c', read, after⟩ := h.reads l 0 [] [] (.ofBytes (encodeChars (l.chars 0 j)))
    spaces_nil (by intro b first; cases first) (by simp [Cursor.ofBytes])
  have blank : c'.skipSpaces.rest = [] := by
    rw [Cursor.skipSpaces, after]
    exact after
  simp only [decodeDocument, read, bind, Except.bind, endOfInput, blank, placed]
  rfl

/-- A document that was cut short is refused, unless it is a number. -/
theorem document_cut (h : Reads decode j a) (other : ∀ n, j ≠ .int n) (l : Layout)
    {part : List UInt8} (cut : Cut part (encodeChars (l.chars 0 j))) :
    ∃ e, decodeDocument decode part = .error e := by
  cases read : decode (.ofBytes part) with
  | error e => exact ⟨e, by simp only [decodeDocument, read, bind, Except.bind]⟩
  | ok out =>
    obtain ⟨_, n, number⟩ := h.cut l 0 [] (.ofBytes part) spaces_nil cut out.1 out.2 read
    exact absurd number (other n)

end

end Reads
end ModuleSystem.Json
