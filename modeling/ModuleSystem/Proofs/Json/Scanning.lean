import ModuleSystem.Proofs.Json.Streams
import ModuleSystem.Text.Blank

/-! Places can also be found without the reader: behind each value, look for the next character that
is no white space of any kind, and count from the beginning of the text. Between values only four
kinds of white space are read over, but a value never begins with one of the others, so it is all
the same. -/

namespace ModuleSystem.Json

/-- The first byte of a value is an ASCII character that can be seen. -/
theorem valueFrom_begins {fuel depth : Nat} {b : UInt8} {c d c' : Cursor} {j : Json}
    (h : valueFrom fuel depth b c d = .ok (j, c')) : 0x20 < b.toNat ∧ b.toNat < 0x80 := by
  by_contra unseen
  have other (ch : Char) (seen : 0x20 < ch.toUInt8.toNat ∧ ch.toUInt8.toNat < 0x80) :
      ¬b = ch.toUInt8 := by
    rintro rfl
    exact unseen seen
  have no_digit : ¬Cursor.isDigit b = true := by
    intro digit
    simp only [Cursor.isDigit, Bool.and_eq_true, decide_eq_true_eq, UInt8.le_iff_toNat_le] at digit
    have low : '0'.toUInt8.toNat = 48 := rfl
    have high : '9'.toUInt8.toNat = 57 := rfl
    apply unseen
    omega
  rw [valueFrom, if_neg (other 'n' (by decide)), if_neg (other 't' (by decide)),
    if_neg (other 'f' (by decide)), if_neg (other '-' (by decide)), if_neg no_digit,
    if_neg (other '\x22' (by decide)), if_neg (other '[' (by decide)),
    if_neg (other '\x7b' (by decide))] at h
  cases h

theorem valueAt_begins {c c' : Cursor} {j : Json} {b : UInt8} {rest : List UInt8}
    (here : c.rest = b :: rest) (visible : Cursor.isSpace b = false)
    (h : valueAt c = .ok (j, c')) : 0x20 < b.toNat ∧ b.toNat < 0x80 := by
  have first := @value_behind (2 * c.rest.length + 1) depthLimit [] rest b c here spaces_nil visible
  exact valueFrom_begins (first.symm.trans h)

theorem blank_of_isBlank {ch : Char} (blank : isBlank ch = true) : Text.isBlank ch = true := by
  simp only [isBlank, Bool.or_eq_true, decide_eq_true_eq] at blank
  obtain ((rfl | rfl) | rfl) | rfl := blank <;> decide

theorem not_blank_of_seen {ch : Char} (low : 0x20 < ch.toNat) (high : ch.toNat < 0x80) :
    Text.isBlank ch = false := by
  simp only [Text.isBlank, Text.blankRanges, List.any_cons, List.any_nil, Bool.or_false,
    Bool.or_eq_false_iff, Bool.and_eq_false_iff, decide_eq_false_iff_not]
  omega

/-- No value begins with white space of any kind. -/
theorem not_blank_of_read {ch : Char} {written : List Char} {j : Json}
    (visible : isBlank ch = false) (read : ofText (String.ofList (ch :: written)) = .ok j) :
    Text.isBlank ch = false := by
  obtain ⟨b, more, encoded, _⟩ := Utf8.encodeChar_shape ch
  have bytes : Utf8.encode (String.ofList (ch :: written)) =
      b :: (more ++ Utf8.encodeChars written) := by
    rw [Utf8.encode, String.toList_ofList, Utf8.encodeChars_cons_append, encoded]
    rfl
  have no_space : Cursor.isSpace b = false := (isBlank_eq_isSpace encoded).symm.trans visible
  rw [ofText, ofBytes, bytes] at read
  obtain ⟨⟨_, after⟩, taken, _⟩ := Except.of_bind_ok read
  obtain ⟨low, high⟩ := valueAt_begins rfl no_space taken
  have ascii : ch.toNat = b.toNat := by
    apply (Utf8.encodeChar_ascii (x := []) (y := more) _ _).1
    · rw [List.append_nil, encoded]
    · exact UInt8.lt_iff_toNat_lt.mpr high
  apply not_blank_of_seen <;> omega

/-- Values found in a text that comes after `before`, each behind all the white space there is. A
number or a word goes up to a delimiter or to the end. -/
inductive Scanned : (before : List Char) → List Char → List (Position × Json) → Prop
  | nil {before chars : List Char} (nothing : chars.dropWhile Text.isBlank = []) :
      Scanned before chars []
  | cons {before chars : List Char} {ch : Char} {written rest : List Char} {j : Json}
      {forms : List (Position × Json)}
      (next : chars.dropWhile Text.isBlank = ch :: written ++ rest)
      (read : ofText (String.ofList (ch :: written)) = .ok j)
      (apart : opens ch = true ∨ ∀ next, rest.head? = some next → delimits next = true)
      (more : Scanned (before ++ chars.takeWhile Text.isBlank ++ ch :: written) rest forms) :
      Scanned before chars ((placeAfter (before ++ chars.takeWhile Text.isBlank), j) :: forms)

theorem Laid.scanned {before chars : List Char} {forms : List (Position × Json)}
    (h : Laid before chars forms) : Scanned before chars forms := by
  induction h with
  | @nil before blank blanks =>
    apply Scanned.nil
    apply List.dropWhile_eq_nil_iff.mpr
    intro ch mem
    exact blank_of_isBlank (blanks ch mem)
  | @cons before blank ch written rest j forms blanks visible read apart more ih =>
    have all (c : Char) (mem : c ∈ blank) : Text.isBlank c = true :=
      blank_of_isBlank (blanks c mem)
    have stops : ¬Text.isBlank ch = true := by simp [not_blank_of_read visible read]
    -- The scan takes all of `blank`, and stops at the first character of the value.
    have taken : (blank ++ (ch :: written ++ rest)).takeWhile Text.isBlank = blank := by
      rw [List.takeWhile_append_of_pos all, List.cons_append, List.takeWhile_cons_of_neg stops,
        List.append_nil]
    have left : (blank ++ (ch :: written ++ rest)).dropWhile Text.isBlank =
        ch :: written ++ rest := by
      rw [List.dropWhile_append_of_pos all, List.cons_append, List.dropWhile_cons_of_neg stops]
    have found := Scanned.cons left read apart (by rwa [taken])
    rwa [taken] at found

/-- Looking for white space of any kind finds the values of a stream at the places that the reader
has counted. -/
theorem stream_scanned {text : String} {forms : List (Position × Json)}
    (h : stream text = .ok forms) : Scanned [] text.toList forms := (stream_laid h).scanned

end ModuleSystem.Json
