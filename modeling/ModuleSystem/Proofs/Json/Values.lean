import ModuleSystem.Proofs.Fields
import ModuleSystem.Proofs.Json.Documents

namespace ModuleSystem.Json

open Utf8 (encodeChars encodeChars_append encodeChars_cons_append)

/-- Its text says all of it. Arrays and objects nest at most so deep. -/
inductive Exact : Nat → Json → Prop
  | null {n : Nat} : Exact n .null
  | bool {n : Nat} (b : Bool) : Exact n (.bool b)
  | int {n : Nat} {k : Int} (low : -0x8000000000000000 ≤ k) (high : k ≤ largestWord) :
      Exact n (.int k)
  | string {n : Nat} (s : String) : Exact n (.string s)
  | array {n : Nat} {items : List Json} (inner : ∀ j ∈ items, Exact n j) :
      Exact (n + 1) (.array items)
  | object {n : Nat} {fields : Fields Json} (sorted : fields.Sorted)
      (inner : ∀ field ∈ fields, Exact n field.2) : Exact (n + 1) (.object fields)

theorem intText_begins (k : Int) :
    ∃ b rest, encodeChars (intText k) = b :: rest ∧ Cursor.isSpace b = false ∧ b ≠ ']'.toUInt8 := by
  unfold intText
  split
  · rw [encodeChars_cons_append]
    exact ⟨_, _, rfl, by decide, by decide⟩
  · obtain ⟨b, more, begins, digit⟩ := Reads.digit_begins k.natAbs
    obtain ⟨visible, not_end, _⟩ := Reads.visible_of_isDigit digit
    exact ⟨b, more, begins, visible, not_end⟩

theorem wordTail_written {word : List Char} (ascii : ∀ ch ∈ word, ch.toNat < 0x80) {c : Cursor}
    {rest : List UInt8} (here : c.rest = encodeChars word ++ rest) :
    ∃ c', wordTail word c = .ok c' ∧ c'.rest = rest := by
  induction word generalizing c with
  | nil => exact ⟨c, rfl, here⟩
  | cons ch more ih =>
    rw [encodeChars_cons_append, Utf8.encodeChar_of_ascii (ascii ch List.mem_cons_self)] at here
    obtain ⟨c', read, after⟩ := ih (fun ch mem => ascii ch (List.mem_cons_of_mem _ mem))
      (Cursor.rest_step c ch.toUInt8 (encodeChars more ++ rest))
    refine ⟨c', ?_, after⟩
    have ahead : c.rest = ch.toUInt8 :: (encodeChars more ++ rest) := here
    rw [wordTail, ahead]
    simp only [if_true]
    exact read

section Values

variable {fuel depth : Nat} {spaces rest : List UInt8} {c : Cursor}

theorem advance_of_rest {b : UInt8} (here : c.rest = b :: rest) : c.advance = c.step b rest := by
  rw [Cursor.advance, here]

/-- A word behind white space is read as what its first letter says. -/
theorem value_word {j : Json} {b : UInt8} {word : List Char} (ascii : ∀ ch ∈ word, ch.toNat < 0x80)
    (visible : Cursor.isSpace b = false)
    (first : ∀ more, c.skipSpaces.rest = b :: more → value (fuel + 1) depth c =
      (wordTail word (c.skipSpaces.step b more) >>= fun c' => .ok (j, c')))
    (blank : Spaces spaces) (here : c.rest = spaces ++ b :: (encodeChars word ++ rest)) :
    ∃ c', value (fuel + 1) depth c = .ok (j, c') ∧ c'.rest = rest := by
  have place := Cursor.rest_skipSpaces here blank visible
  obtain ⟨c', read, after⟩ := wordTail_written ascii
    (Cursor.rest_step c.skipSpaces b (encodeChars word ++ rest))
  refine ⟨c', ?_, after⟩
  rw [first _ place, read]
  rfl

theorem value_null (blank : Spaces spaces)
    (here : c.rest = spaces ++ (encodeChars (compactChars .null) ++ rest)) :
    ∃ c', value (fuel + 1) depth c = .ok (.null, c') ∧ c'.rest = rest := by
  have text : encodeChars (compactChars .null) = 'n'.toUInt8 :: encodeChars ['u', 'l', 'l'] := rfl
  rw [text, List.cons_append] at here
  refine value_word (by simp) (by decide) ?_ blank here
  intro more place
  simp only [value, place]
  rfl

theorem value_bool (b : Bool) (blank : Spaces spaces)
    (here : c.rest = spaces ++ (encodeChars (compactChars (.bool b)) ++ rest)) :
    ∃ c', value (fuel + 1) depth c = .ok (.bool b, c') ∧ c'.rest = rest := by
  cases b with
  | true =>
    have text : encodeChars (compactChars (.bool true)) =
        't'.toUInt8 :: encodeChars ['r', 'u', 'e'] := rfl
    rw [text, List.cons_append] at here
    refine value_word (by simp) (by decide) ?_ blank here
    intro more place
    simp only [value, place]
    rfl
  | false =>
    have text : encodeChars (compactChars (.bool false)) =
        'f'.toUInt8 :: encodeChars ['a', 'l', 's', 'e'] := rfl
    rw [text, List.cons_append] at here
    refine value_word (by simp) (by decide) ?_ blank here
    intro more place
    simp only [value, place]
    rfl

theorem value_string {s : String} (blank : Spaces spaces)
    (here : c.rest = spaces ++ (encodeChars (stringText s) ++ rest)) :
    ∃ c', value (fuel + 1) depth c = .ok (.string s, c') ∧ c'.rest = rest := by
  have text := encodeChars_stringText s
  rw [text] at here
  have place := Cursor.rest_skipSpaces here blank (by decide)
  obtain ⟨c', read, after⟩ := stringTail_of_text (s := s) (c := c.skipSpaces)
    (by rw [text]; exact place)
  rw [advance_of_rest place] at read
  refine ⟨c', ?_, after⟩
  simp only [value, place]
  change (stringTail _ >>= _) = _
  rw [read]
  rfl

/-- A number below zero is read after its sign, and any other one from its first digit on. -/
theorem value_int {k : Int} (low : -0x8000000000000000 ≤ k) (high : k ≤ largestWord)
    (blank : Spaces spaces) (ends : Ends rest)
    (here : c.rest = spaces ++ (encodeChars (intText k) ++ rest)) :
    ∃ c', value (fuel + 1) depth c = .ok (.int k, c') ∧ c'.rest = rest := by
  have word : largestWord = 0xffffffffffffffff := rfl
  unfold intText at here
  split at here
  · next negative =>
    rw [encodeChars_cons_append] at here
    have place : c.skipSpaces.rest =
        '-'.toUInt8 :: (encodeChars (Nat.toDigits 10 k.natAbs) ++ rest) :=
      Cursor.rest_skipSpaces here blank (by decide)
    obtain ⟨c', read, after⟩ := number_written true (n := k.natAbs) (by omega) ends
      (Cursor.rest_step c.skipSpaces '-'.toUInt8 _)
    refine ⟨c', ?_, after⟩
    have whole : wholeNumber true k.natAbs = .int k := by
      have some : k.natAbs ≠ 0 := by omega
      have small : ¬0x8000000000000000 < k.natAbs := by omega
      have same : -(k.natAbs : Int) = k := by omega
      simp only [wholeNumber, Bool.not_true, Bool.false_eq_true, if_false, some, small,
        decide_false, Bool.or_self, same]
    simp only [value, place]
    change (number true _ >>= _) = _
    rw [read, whole]
    rfl
  · next positive =>
    obtain ⟨b, more, begins, digit⟩ := Reads.digit_begins k.natAbs
    obtain ⟨visible, _, not_minus⟩ := Reads.visible_of_isDigit digit
    have text := here
    rw [begins, List.cons_append] at text
    have place := Cursor.rest_skipSpaces text blank visible
    obtain ⟨c', read, after⟩ := number_written false (n := k.natAbs) (by omega) ends
      (c := c.skipSpaces) (by rw [place, begins, List.cons_append])
    refine ⟨c', ?_, after⟩
    have whole : wholeNumber false k.natAbs = .int k := by
      have same : (k.natAbs : Int) = k := by omega
      simp only [wholeNumber, Bool.not_false, if_true, same]
    have range : b.toNat ≤ 57 := by
      rw [Cursor.isDigit, Bool.and_eq_true, decide_eq_true_eq, decide_eq_true_eq,
        UInt8.le_iff_toNat_le, UInt8.le_iff_toNat_le] at digit
      exact digit.2
    have letter : ∀ b' : UInt8, 57 < b'.toNat → b ≠ b' := by
      rintro b' large rfl
      omega
    simp only [value, place, if_neg (letter 'n'.toUInt8 (by decide)),
      if_neg (letter 't'.toUInt8 (by decide)), if_neg (letter 'f'.toUInt8 (by decide)),
      if_neg not_minus, digit, if_true, read, whole, bind, Except.bind]
    rfl

end Values

/-- Where so many levels are allowed, the value is read back from its text in a layout. The text
begins with neither white space nor the end of an array. -/
structure Back (l : Layout) (depth : Nat) (j : Json) : Prop where
  begins : ∀ level, ∃ b rest, encodeChars (l.chars level j) = b :: rest ∧
    Cursor.isSpace b = false ∧ b ≠ ']'.toUInt8
  reads : ∀ (level fuel : Nat) (spaces rest : List UInt8) (c : Cursor),
    (encodeChars (l.chars level j)).length ≤ fuel → Spaces spaces → Ends rest →
    c.rest = spaces ++ (encodeChars (l.chars level j) ++ rest) →
    ∃ c', value fuel depth c = .ok (j, c') ∧ c'.rest = rest

theorem length_itemsChars (l : Layout) (level : Nat) (first : Bool) (j : Json) (more : List Json) :
    (encodeChars (l.chars level j)).length + (encodeChars (l.itemsChars level false more)).length ≤
      (encodeChars (l.itemsChars level first (j :: more))).length := by
  simp only [Layout.itemsChars, encodeChars_append, List.length_append]
  omega

theorem length_fieldsChars (l : Layout) (level : Nat) (first : Bool) (name : String) (j : Json)
    (more : List (String × Json)) :
    (encodeChars (l.chars level j)).length + (encodeChars (l.fieldsChars level false more)).length <
      (encodeChars (l.fieldsChars level first ((name, j) :: more))).length := by
  have colon : 1 ≤ (Utf8.encodeChar ':').length := by decide
  simp only [Layout.fieldsChars, encodeChars_append, encodeChars_cons_append, List.length_append]
  omega

section Lists

variable {l : Layout} {depth level fuel : Nat} {spaces rest : List UInt8} {c : Cursor}

theorem items_written {js : List Json} (back : ∀ j ∈ js, Back l depth j) (blank : Spaces spaces)
    (first : Bool) (read : List Json)
    (enough : (encodeChars (l.itemsChars level first js)).length < fuel)
    (here : c.rest = encodeChars (l.itemsChars level first js) ++ (spaces ++ ']'.toUInt8 :: rest)) :
    ∃ c', items fuel depth first read c = .ok (js.reverse ++ read, c') ∧ c'.rest = rest := by
  induction js generalizing fuel first read c with
  | nil =>
    obtain ⟨fuel, rfl⟩ := Nat.exists_eq_add_one.mpr (Nat.zero_lt_of_lt enough)
    obtain ⟨c₁, ended, after⟩ := moreItems_end first blank here
    refine ⟨c₁.advance, ?_, Cursor.rest_advance after⟩
    simp only [items, ended, bind, Except.bind]
    rfl
  | cons j more ih =>
    obtain ⟨fuel, rfl⟩ := Nat.exists_eq_add_one.mpr (Nat.zero_lt_of_lt enough)
    have item := back j List.mem_cons_self
    obtain ⟨b, tail, begins, visible, other⟩ := item.begins level
    have some : 0 < (encodeChars (l.chars level j)).length := by
      rw [begins]
      exact Nat.succ_pos _
    have length := length_itemsChars l level first j more
    have few : (encodeChars (l.itemsChars level false more)).length < fuel := by omega
    have ends : Ends (_ ++ (spaces ++ ']'.toUInt8 :: rest)) :=
      ends_items l level more (ends_close blank (.inl rfl))
    rw [itemsChars_cons, begins, List.cons_append] at here
    obtain ⟨c₁, asked, place⟩ := moreItems_item first (l.spaces_line level) visible other here
    obtain ⟨c₂, found, after⟩ := item.reads level fuel [] _ c₁ (by omega) spaces_nil ends
      (by rw [place, begins, List.cons_append, List.nil_append])
    obtain ⟨c₃, rest_read, done⟩ := ih (fun j mem => back j (List.mem_cons_of_mem _ mem)) false
      (j :: read) few after
    refine ⟨c₃, ?_, done⟩
    simp only [items, asked, bind, Except.bind, if_true, found, rest_read, List.reverse_cons,
      List.append_assoc, List.singleton_append]

/-- Names that come in order are bound one after the other. -/
theorem members_written {fields more : Fields Json} (back : ∀ field ∈ more, Back l depth field.2)
    (sorted : Fields.Sorted (fields ++ more)) (blank : Spaces spaces) (first : Bool)
    (enough : (encodeChars (l.fieldsChars level first more)).length < fuel)
    (here : c.rest = encodeChars (l.fieldsChars level first more) ++
      (spaces ++ '\x7d'.toUInt8 :: rest)) :
    ∃ c', members fuel depth first fields c = .ok (fields ++ more, c') ∧ c'.rest = rest := by
  induction more generalizing fuel first fields c with
  | nil =>
    obtain ⟨fuel, rfl⟩ := Nat.exists_eq_add_one.mpr (Nat.zero_lt_of_lt enough)
    obtain ⟨c₁, ended, after⟩ := nextName_end first blank here
    refine ⟨c₁.advance, ?_, Cursor.rest_advance after⟩
    simp only [members, ended, bind, Except.bind, List.append_nil]
    rfl
  | cons field more ih =>
    obtain ⟨name, j⟩ := field
    obtain ⟨fuel, rfl⟩ := Nat.exists_eq_add_one.mpr (Nat.zero_lt_of_lt enough)
    have length := length_fieldsChars l level first name j more
    have few : (encodeChars (l.fieldsChars level false more)).length < fuel := by omega
    have fits : (encodeChars (l.chars level j)).length ≤ fuel := by omega
    have ends : Ends (_ ++ (spaces ++ '\x7d'.toUInt8 :: rest)) :=
      ends_fields l level more (ends_close blank (.inr rfl))
    obtain ⟨before, sorted⟩ := Fields.sorted_append_cons sorted
    rw [fieldsChars_cons] at here
    obtain ⟨c₁, asked, after_name⟩ := nextName_field first (l.spaces_line level) here
    obtain ⟨c₂, colon, after_colon⟩ := colon_written after_name
    obtain ⟨c₃, found, after⟩ := (back (name, j) List.mem_cons_self).reads level fuel _ _ c₂ fits
      l.spaces_gap ends after_colon
    obtain ⟨c₄, rest_read, done⟩ := ih (fun field mem => back field (List.mem_cons_of_mem _ mem))
      sorted false few after
    refine ⟨c₄, ?_, done⟩
    simp only [members, asked, bind, Except.bind, colon, found, Fields.insert_last before,
      rest_read, List.append_assoc, List.singleton_append]

end Lists

section Whole

variable {depth : Nat} {l : Layout}

/-- A value that no layout breaks into lines. -/
theorem Back.of_single {j : Json} (single : ∀ level, l.chars level j = compactChars j)
    (begins : ∃ b rest, encodeChars (compactChars j) = b :: rest ∧ Cursor.isSpace b = false ∧
      b ≠ ']'.toUInt8)
    (reads : ∀ (fuel : Nat) (spaces rest : List UInt8) (c : Cursor), Spaces spaces → Ends rest →
      c.rest = spaces ++ (encodeChars (compactChars j) ++ rest) →
      ∃ c', value (fuel + 1) depth c = .ok (j, c') ∧ c'.rest = rest) : Back l depth j := by
  refine ⟨fun level => by rwa [single], ?_⟩
  intro level fuel spaces rest c enough blank ends here
  rw [single] at enough here
  obtain ⟨b, more, begins, _⟩ := begins
  rw [begins, List.length_cons] at enough
  obtain ⟨fuel, rfl⟩ := Nat.exists_eq_add_one.mpr (Nat.zero_lt_of_lt enough)
  exact reads fuel spaces rest c blank ends here

theorem back_null : Back l depth .null := by
  apply Back.of_single
  · intro level
    rw [Layout.chars]
  · exact ⟨_, _, rfl, by decide, by decide⟩
  · intro fuel spaces rest c blank _ here
    exact value_null blank here

theorem back_bool (b : Bool) : Back l depth (.bool b) := by
  apply Back.of_single
  · intro level
    rw [Layout.chars]
  · cases b <;> exact ⟨_, _, rfl, by decide, by decide⟩
  · intro fuel spaces rest c blank _ here
    exact value_bool b blank here

theorem back_int {k : Int} (low : -0x8000000000000000 ≤ k) (high : k ≤ largestWord) :
    Back l depth (.int k) := by
  apply Back.of_single
  · intro level
    rw [Layout.chars]
  · exact intText_begins k
  · intro fuel spaces rest c blank ends here
    exact value_int low high blank ends here

theorem back_string (s : String) : Back l depth (.string s) := by
  apply Back.of_single
  · intro level
    rw [Layout.chars]
  · exact ⟨_, _, encodeChars_stringText s, by decide, by decide⟩
  · intro fuel spaces rest c blank _ here
    exact value_string blank here

theorem back_array {js : List Json} (back : ∀ j ∈ js, Back l depth j) (deep : 0 < depth) :
    Back l (depth + 1) (.array js) := by
  have text : ∀ level, encodeChars (l.chars level (.array js)) = '['.toUInt8 ::
      (encodeChars (l.itemsChars (level + 1) true js) ++
        (encodeChars (l.lastLine level js) ++ [']'.toUInt8])) := by
    intro level
    rw [Layout.chars, encodeChars_cons_append, encodeChars_append, encodeChars_append]
    rfl
  refine ⟨fun level => ⟨_, _, text level, by decide, by decide⟩, ?_⟩
  intro level fuel spaces rest c enough blank ends here
  rw [text, List.length_cons, List.length_append, List.length_append,
    List.length_singleton] at enough
  obtain ⟨fuel, rfl⟩ := Nat.exists_eq_add_one.mpr (Nat.zero_lt_of_lt enough)
  rw [text, List.cons_append, List.append_assoc, List.append_assoc, List.singleton_append] at here
  have place := Cursor.rest_skipSpaces here blank (by decide)
  have few : (encodeChars (l.itemsChars (level + 1) true js)).length < fuel := by omega
  obtain ⟨c', read, after⟩ := items_written back (l.spaces_lastLine level js) true [] few
    (Cursor.rest_step c.skipSpaces '['.toUInt8 _)
  refine ⟨c', ?_, after⟩
  have allowed : ¬depth + 1 ≤ 1 := by omega
  simp only [value, place]
  change (if depth + 1 ≤ 1 then _ else items fuel depth true [] _ >>= _) = _
  rw [if_neg allowed, read, List.append_nil]
  simp only [bind, Except.bind, List.reverse_reverse]
  rfl

theorem back_object {fields : Fields Json} (back : ∀ field ∈ fields, Back l depth field.2)
    (sorted : fields.Sorted) (deep : 0 < depth) : Back l (depth + 1) (.object fields) := by
  have text : ∀ level, encodeChars (l.chars level (.object fields)) = '\x7b'.toUInt8 ::
      (encodeChars (l.fieldsChars (level + 1) true fields) ++
        (encodeChars (l.lastLine level fields) ++ ['\x7d'.toUInt8])) := by
    intro level
    rw [Layout.chars, encodeChars_cons_append, encodeChars_append, encodeChars_append]
    rfl
  refine ⟨fun level => ⟨_, _, text level, by decide, by decide⟩, ?_⟩
  intro level fuel spaces rest c enough blank ends here
  rw [text, List.length_cons, List.length_append, List.length_append,
    List.length_singleton] at enough
  obtain ⟨fuel, rfl⟩ := Nat.exists_eq_add_one.mpr (Nat.zero_lt_of_lt enough)
  rw [text, List.cons_append, List.append_assoc, List.append_assoc, List.singleton_append] at here
  have place := Cursor.rest_skipSpaces here blank (by decide)
  have few : (encodeChars (l.fieldsChars (level + 1) true fields)).length < fuel := by omega
  have whole : Fields.Sorted ([] ++ fields) := sorted
  obtain ⟨c', read, after⟩ := members_written back whole
    (l.spaces_lastLine level fields) true few (Cursor.rest_step c.skipSpaces '\x7b'.toUInt8 _)
  refine ⟨c', ?_, after⟩
  have allowed : ¬depth + 1 ≤ 1 := by omega
  simp only [value, place]
  change (if depth + 1 ≤ 1 then _ else members fuel depth true [] _ >>= _) = _
  rw [if_neg allowed, read]
  rfl

/-- A value whose text says all of it is read back where one level more is allowed than it has. -/
theorem Exact.back {n : Nat} {j : Json} (h : Exact n j) (deep : n < depth) : Back l depth j := by
  induction h generalizing depth with
  | null => exact back_null
  | bool b => exact back_bool b
  | int low high => exact back_int low high
  | string s => exact back_string s
  | array inner ih =>
    obtain ⟨depth, rfl⟩ := Nat.exists_eq_add_one.mpr (Nat.zero_lt_of_lt deep)
    apply back_array
    · intro j mem
      exact ih j mem (Nat.lt_of_succ_lt_succ deep)
    · omega
  | object sorted inner ih =>
    obtain ⟨depth, rfl⟩ := Nat.exists_eq_add_one.mpr (Nat.zero_lt_of_lt deep)
    apply back_object
    · intro field mem
      exact ih field mem (Nat.lt_of_succ_lt_succ deep)
    · exact sorted
    · omega

end Whole

/-- The text of a value comes back as the value, compact or pretty. -/
theorem ofText_layout {j : Json} (h : Exact 127 j) (l : Layout) :
    ofText (String.ofList (l.chars 0 j)) = .ok j := by
  have bytes : Utf8.encode (String.ofList (l.chars 0 j)) = encodeChars (l.chars 0 j) := by
    rw [Utf8.encode, String.toList_ofList]
  have back : Back l depthLimit j := h.back (by decide)
  have enough : (encodeChars (l.chars 0 j)).length ≤
      fuelFor (.ofBytes (encodeChars (l.chars 0 j))) := by
    simp only [fuelFor, Cursor.ofBytes]
    omega
  have ends : Ends [] := by
    intro b first
    cases first
  obtain ⟨c, read, after⟩ := back.reads 0 _ [] [] (.ofBytes (encodeChars (l.chars 0 j))) enough
    spaces_nil ends (by simp [Cursor.ofBytes])
  have blank : c.skipSpaces.rest = [] := by
    rw [Cursor.skipSpaces, after]
    exact after
  simp only [ofText, bytes, ofBytes, valueAt, read, bind, Except.bind, endOfInput, blank]
  rfl

theorem ofText_compact {j : Json} (h : Exact 127 j) : ofText j.compact = .ok j := by
  rw [compact, compactChars_eq 0]
  exact ofText_layout h _

end ModuleSystem.Json
