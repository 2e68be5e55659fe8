import ModuleSystem.Proofs.Json.Extents
import ModuleSystem.Proofs.Json.Places

/-! A text that is a stream of values is made of them and of white space. Each value is a document
of its own, and its place is that of its first character. Two streams, one below the other, are one
stream. -/

namespace ModuleSystem.Json

open Utf8 (encodeChar encodeChars)
open Cursor (past_append rest_past past_cons)

/-- The values from a cursor on, up to the end of the input. -/
inductive Streams : Cursor → List (Position × Json) → Prop
  | done {c : Cursor} (nothing : c.skipSpaces.rest = []) : Streams c []
  | value {c after : Cursor} {j : Json} {forms : List (Position × Json)}
      (something : c.skipSpaces.rest ≠ []) (read : valueAt c.skipSpaces = .ok (j, after))
      (apart : closed c.skipSpaces after = .ok ()) (more : Streams after forms) :
      Streams c ((c.skipSpaces.position, j) :: forms)

section Fuel

variable {fuel : Nat} {c : Cursor} {forms : List (Position × Json)}

/-- A value that follows takes some of what is left. -/
theorem valueAt_left_lt {j : Json} {after : Cursor} (h : valueAt c.skipSpaces = .ok (j, after)) :
    after.left < c.left := by
  have taken := (valueAt_takes h).beyond
  rw [show c.skipSpaces.skipSpaces = c.skipSpaces from Cursor.skip_skip Cursor.isSpace rfl] at taken
  exact Nat.lt_of_lt_of_le taken.left_lt c.onward_skipSpaces.left_le

theorem streamFrom_iff (enough : c.left < fuel) :
    streamFrom fuel c = .ok forms ↔ Streams c forms := by
  constructor
  · intro h
    induction fuel generalizing c forms with
    | zero => omega
    | succ fuel ih =>
      simp only [streamFrom] at h
      split at h
      · next nothing =>
        cases h
        exact .done nothing
      · next something =>
        obtain ⟨⟨j, after⟩, read, h⟩ := Except.of_bind_ok h
        obtain ⟨_, apart, h⟩ := Except.of_bind_ok h
        obtain ⟨more, onward, h⟩ := Except.of_bind_ok h
        cases h
        have less := valueAt_left_lt read
        exact .value (by simp [something]) read apart (ih (by omega) onward)
  · intro h
    induction h generalizing fuel with
    | done nothing =>
      obtain ⟨fuel, rfl⟩ := Nat.exists_eq_add_one.mpr (show 0 < fuel by omega)
      simp only [streamFrom, nothing]
      rfl
    | @value c after j forms something read apart more ih =>
      obtain ⟨fuel, rfl⟩ := Nat.exists_eq_add_one.mpr (show 0 < fuel by omega)
      have less := valueAt_left_lt read
      simp only [streamFrom]
      split
      · next nothing => exact absurd nothing something
      · rw [read]
        have onward : streamFrom fuel after = .ok forms := ih (by omega)
        simp only [bind, Except.bind, apart, onward]
        rfl

theorem stream_iff {text : String} :
    stream text = .ok forms ↔ Streams (.ofBytes (Utf8.encode text)) forms :=
  streamFrom_iff (Nat.lt_succ_self _)

end Fuel

section Blank

variable {c d : Cursor} {w x : List UInt8} {forms : List (Position × Json)}

theorem Cursor.skipSpaces_blank (here : c.rest = w ++ x) (blank : Spaces w) :
    c.skipSpaces = (c.past w).skipSpaces := by
  obtain ⟨gap, r, rfl, blank', stops⟩ := Cursor.exists_run Cursor.isSpace x
  have ahead := rest_past here
  rw [← List.append_assoc] at here
  have all : Spaces (w ++ gap) := List.forall_mem_append.mpr ⟨blank, blank'⟩
  rw [Cursor.skipSpaces_past here all stops,
    Cursor.skipSpaces_past ahead blank' stops, past_append]

/-- What is read depends on the first byte that is no white space. -/
theorem Streams.of_skipSpaces (h : Streams c forms) (same : d.skipSpaces = c.skipSpaces) :
    Streams d forms := by
  cases h with
  | done nothing => exact .done (by rw [same, nothing])
  | value something read apart more =>
    rw [← same] at something read apart ⊢
    exact .value something read apart more

theorem Streams.blank (h : Streams (c.past w) forms) (here : c.rest = w ++ x) (blank : Spaces w) :
    Streams c forms :=
  h.of_skipSpaces (Cursor.skipSpaces_blank here blank)

end Blank

/-- What may stand behind a value in a stream, if `b` is its first byte. -/
def Apart (b : UInt8) (x : List UInt8) : Prop :=
  Opens b ∨ ∀ b', x.head? = some b' → isDelimiter b' = true

theorem closed_iff {start after : Cursor} {b : UInt8} {rest : List UInt8}
    (here : start.rest = b :: rest) : closed start after = .ok () ↔ Apart b after.rest := by
  have peeks : ∀ ch, start.peeks ch = decide (b = ch.toUInt8) := by
    intro ch
    rw [Cursor.peeks, Cursor.peek?, here, List.head?_cons, Bool.eq_iff_iff]
    simp
  have opens : (start.peeks '\x22' || start.peeks '[' || start.peeks '\x7b') = true ↔ Opens b := by
    simp only [peeks, Bool.or_eq_true, decide_eq_true_eq, Opens, or_assoc]
  unfold closed
  rw [Apart]
  split
  · next open_ => exact iff_of_true rfl (.inl (opens.mp open_))
  · next open_ =>
    have shut : ¬Opens b := fun h => open_ (opens.mpr h)
    split
    · next none => exact iff_of_true rfl (.inr (by simp [none]))
    · next b' more some =>
      rw [some]
      constructor
      · intro h
        refine .inr ?_
        rintro _ ⟨⟩
        by_contra no
        rw [if_neg no] at h
        cases h
      · rintro (h | h)
        · exact absurd h shut
        · rw [if_pos (h b' rfl)]

/-- The next value of a stream: white space, and the bytes of the value. -/
structure Next (c : Cursor) (j : Json) (after : Cursor) (gap : List UInt8) (b : UInt8)
    (w : List UInt8) : Prop where
  split : c.rest = gap ++ b :: (w ++ after.rest)
  blank : Spaces gap
  start : c.skipSpaces = c.past gap
  past : after = c.past (gap ++ b :: w)
  begins : Cursor.beginsChar b = true
  occupies : Occupies depthLimit c.skipSpaces j after [] b w
  apart : Apart b after.rest

theorem exists_next {c after : Cursor} {j : Json} (read : valueAt c.skipSpaces = .ok (j, after))
    (apart : closed c.skipSpaces after = .ok ()) : ∃ gap b w, Next c j after gap b w := by
  obtain ⟨gap, r, split, blank, stops, start, here⟩ := skipSpaces_spec c
  obtain ⟨none, b, w, occupies, past⟩ := valueAt_occupies read
  have whole := occupies.split
  rw [here] at whole
  -- The white space has been skipped.
  cases none with
  | cons b' none =>
    rw [whole] at stops
    have space := occupies.blank b' List.mem_cons_self
    rw [stops b' rfl] at space
    cases space
  | nil =>
    rw [List.nil_append] at whole past
    rw [start, ← past_append] at past
    rw [whole] at split here
    have begins : Cursor.beginsChar b = true := by
      obtain ⟨_, _, first, begins, _⟩ := (valueAt_takes read).beyond
      rw [show c.skipSpaces.skipSpaces = c.skipSpaces from Cursor.skip_skip Cursor.isSpace rfl,
        here] at first
      cases first
      exact begins
    exact ⟨gap, b, w, split, blank, start, past, begins, occupies, (closed_iff here).mp apart⟩

/-- A value that comes next is read, wherever its bytes stand. -/
theorem Next.again {c after d : Cursor} {j : Json} {gap w x : List UInt8} {b : UInt8}
    (h : Next c j after gap b w) (here : d.rest = gap ++ b :: (w ++ x))
    (follows : Follows after.rest x) (apart : Apart b x) {forms : List (Position × Json)}
    (more : Streams (d.past (gap ++ b :: w)) forms) :
    Streams d (((d.past gap).position, j) :: forms) := by
  have start : d.skipSpaces = d.past gap := by
    apply Cursor.skipSpaces_past here h.blank
    rintro _ ⟨⟩
    exact h.occupies.visible
  have ahead := rest_past here
  have read := h.occupies.valueAt spaces_nil ahead follows
  have behind : ((d.past gap).past ([] ++ b :: w)).rest = x := by
    rw [List.nil_append]
    exact rest_past ahead
  have shut : closed (d.past gap) ((d.past gap).past ([] ++ b :: w)) = .ok () := by
    rw [closed_iff ahead, behind]
    exact apart
  rw [past_append] at more
  rw [← start] at ahead read shut more ⊢
  exact .value (by simp [ahead]) read shut more

/-- Strings, arrays and objects begin with these. -/
def opens (ch : Char) : Bool := ch = '\x22' || ch = '[' || ch = '\x7b'

/-- What may stand behind a number or a word. -/
def delimits (ch : Char) : Bool :=
  isBlank ch || opens ch || ch = ']' || ch = '\x7d' || ch = ',' || ch = ':'

/-- Values that lie one after another in a text that comes after `before`, each behind white space,
and their places. A number or a word goes up to a delimiter or to the end. -/
inductive Laid : (before : List Char) → List Char → List (Position × Json) → Prop
  | nil {before blank : List Char} (blanks : ∀ ch ∈ blank, isBlank ch = true) :
      Laid before blank []
  | cons {before blank : List Char} {ch : Char} {written rest : List Char} {j : Json}
      {forms : List (Position × Json)} (blanks : ∀ ch ∈ blank, isBlank ch = true)
      (visible : isBlank ch = false) (read : ofText (String.ofList (ch :: written)) = .ok j)
      (apart : opens ch = true ∨ ∀ next, rest.head? = some next → delimits next = true)
      (more : Laid (before ++ blank ++ ch :: written) rest forms) :
      Laid before (blank ++ (ch :: written ++ rest)) ((placeAfter (before ++ blank), j) :: forms)

section Bytes

variable {ch : Char} {b : UInt8} {more : List UInt8}

theorem opens_of_byte (encoded : encodeChar ch = b :: more) (h : Opens b) : opens ch = true := by
  have same := @Utf8.eq_of_encodeChar ch
  obtain rfl | rfl | rfl := h
  all_goals
    rw [same encoded (by decide)]
    rfl

theorem delimits_of_byte (encoded : encodeChar ch = b :: more) (h : isDelimiter b = true) :
    delimits ch = true := by
  have same : ∀ {c : Char}, b = c.toUInt8 → c.toNat < 0x80 → ch = c := by
    rintro c rfl
    exact Utf8.eq_of_encodeChar encoded
  simp only [isDelimiter, Cursor.isSpace, Bool.or_eq_true, decide_eq_true_eq, or_assoc] at h
  obtain h | h | h | h | h | h | h | h | h | h | h := h
  all_goals
    rw [same h (by decide)]
    rfl

end Bytes

theorem begins_of_delimiter {b : UInt8} (h : isDelimiter b = true) :
    Cursor.beginsChar b = true := by
  simp only [isDelimiter, Cursor.isSpace, Bool.or_eq_true, decide_eq_true_eq, or_assoc] at h
  obtain rfl | rfl | rfl | rfl | rfl | rfl | rfl | rfl | rfl | rfl | rfl := h <;> rfl

/-- The characters of the next value, and those that follow it. -/
theorem Next.characters {c after : Cursor} {j : Json} {gap w : List UInt8} {b : UInt8}
    (h : Next c j after gap b w) {chars : List Char} (here : c.rest = encodeChars chars) :
    ∃ blank written rest, chars = blank ++ (written ++ rest) ∧ encodeChars blank = gap ∧
      encodeChars written = b :: w ∧ encodeChars rest = after.rest := by
  rw [h.split] at here
  obtain ⟨blank, later, rfl, blank_eq, later_eq⟩ := Utf8.exists_split here.symm (by
    rintro _ ⟨⟩
    exact h.begins)
  suffices ∃ written rest, later = written ++ rest ∧ encodeChars written = b :: w ∧
      encodeChars rest = after.rest by
    obtain ⟨written, rest, rfl, written_eq, rest_eq⟩ := this
    exact ⟨blank, written, rest, rfl, blank_eq, written_eq, rest_eq⟩
  obtain open_ | delimited := h.apart
  · obtain ⟨v, e, rfl, ascii⟩ := h.occupies.ends open_
    apply Utf8.exists_split_after (v := b :: v) ascii
    rw [later_eq]
    simp
  · exact Utf8.exists_split (v := b :: w) later_eq fun b' head =>
      begins_of_delimiter (delimited b' head)

theorem Streams.laid {c : Cursor} {forms : List (Position × Json)} (h : Streams c forms)
    {before chars : List Char} (behind : c.Behind before) (here : c.rest = encodeChars chars) :
    Laid before chars forms := by
  induction h generalizing before chars with
  | @done c nothing =>
    apply Laid.nil
    apply isBlank_of_spaces
    obtain ⟨gap, r, split, blank, _, _, none⟩ := skipSpaces_spec c
    rw [nothing] at none
    rw [← here, split, ← none, List.append_nil]
    exact blank
  | @value c after j forms something read apart more ih =>
    obtain ⟨gap, b, w, next⟩ := exists_next read apart
    obtain ⟨blank, written, rest, rfl, blank_eq, written_eq, rest_eq⟩ := next.characters here
    have split := next.split
    have start := behind.past (split.trans (by rw [blank_eq]))
    have behind_blank : (c.past (encodeChars blank)).rest = encodeChars written ++ after.rest := by
      rw [blank_eq, written_eq]
      exact rest_past split
    have ended := start.past behind_blank
    rw [blank_eq, written_eq, ← past_append, ← next.past] at ended
    have alone : ofText (String.ofList written) = .ok j := by
      have read := next.occupies.valueAt (d := .ofBytes (b :: w)) (x := []) spaces_nil
        (by rw [List.append_nil]; rfl) (.inr nofun)
      rw [ofText, Utf8.encode, String.toList_ofList, written_eq, ofBytes, read]
      have none : ((Cursor.ofBytes (b :: w)).past ([] ++ b :: w)).skipSpaces.rest = [] := by
        have empty : ((Cursor.ofBytes (b :: w)).past ([] ++ b :: w)).rest = [] :=
          rest_past (List.append_nil _).symm
        rw [Cursor.skipSpaces_past (w := []) (x := []) empty spaces_nil nofun]
        exact empty
      simp only [bind, Except.bind, endOfInput, none]
      rfl
    cases written with
    | nil => cases written_eq
    | cons ch written =>
      obtain ⟨b', more', encoded, _⟩ := Utf8.encodeChar_shape ch
      obtain rfl : b' = b := by
        rw [Utf8.encodeChars_cons_append, encoded] at written_eq
        cases written_eq
        rfl
      rw [next.start, ← blank_eq, start.position]
      apply Laid.cons _ ((isBlank_eq_isSpace encoded).trans next.occupies.visible) alone _
        (ih ended rest_eq.symm)
      · apply isBlank_of_spaces
        rw [blank_eq]
        exact next.blank
      · refine next.apart.imp (opens_of_byte encoded) ?_
        intro delimited first head
        obtain ⟨_, rfl⟩ := List.head?_eq_some_iff.mp head
        obtain ⟨b₁, _, encoded₁, _⟩ := Utf8.encodeChar_shape first
        apply delimits_of_byte encoded₁
        apply delimited
        rw [← rest_eq, Utf8.encodeChars_cons_append, encoded₁]
        rfl

/-- The values of a stream lie in its text, each at its place. -/
theorem stream_laid {text : String} {forms : List (Position × Json)}
    (h : stream text = .ok forms) : Laid [] text.toList forms :=
  (stream_iff.mp h).laid (Cursor.behind_nil _) rfl

/-- A place further down. -/
def Position.lower (lines : Nat) (p : Position) : Position := ⟨p.line + lines, p.column⟩

/-- Values and their places, further down. -/
def lower (lines : Nat) (forms : List (Position × Json)) : List (Position × Json) :=
  forms.map fun form => (form.1.lower lines, form.2)

/-- What stood behind a value may still stand there when lines follow. -/
theorem head_append {r x : List UInt8} (newline : ∀ b, x.head? = some b → b = '\n'.toUInt8)
    {b : UInt8} (head : (r ++ x).head? = some b) : r.head? = some b ∨ b = '\n'.toUInt8 := by
  cases r with
  | nil => exact .inr (newline b head)
  | cons b' r => exact .inl head

/-- Values that end with a text, or with a line, are read again where more follows, and further down
in another text. -/
theorem Streams.lower {c : Cursor} {forms : List (Position × Json)} (h : Streams c forms)
    {d : Cursor} {lines : Nat} {x : List UInt8} (here : d.rest = c.rest ++ x)
    (line : d.line = c.line + lines) (chars : d.chars = c.chars)
    (newline : ∀ b, x.head? = some b → b = '\n'.toUInt8) {later : List (Position × Json)}
    (onward : Streams (d.past c.rest) later) :
    Streams d (lower lines forms ++ later) := by
  induction h generalizing d with
  | @done c nothing =>
    obtain ⟨gap, r, split, blank, _, _, none⟩ := skipSpaces_spec c
    rw [nothing] at none
    rw [← none, List.append_nil] at split
    apply onward.blank here
    rw [split]
    exact blank
  | @value c after j forms something read apart more ih =>
    obtain ⟨gap, b, w, next⟩ := exists_next read apart
    have split := next.split
    have here' : d.rest = gap ++ b :: (w ++ (after.rest ++ x)) := by
      rw [here, split]
      simp
    have follows : Follows after.rest (after.rest ++ x) := by
      cases rest : after.rest with
      | cons b' r => exact .inl rfl
      | nil =>
        refine .inr ?_
        intro b' head
        rw [newline b' head]
        decide
    have apart' : Apart b (after.rest ++ x) := by
      refine next.apart.imp id ?_
      intro delimited b' head
      obtain old | rfl := head_append newline head
      · exact delimited b' old
      · rfl
    have ahead : d.rest = (gap ++ b :: w) ++ (after.rest ++ x) := by
      rw [here']
      simp
    have behind : c.rest = (gap ++ b :: w) ++ after.rest := by
      rw [split]
      simp
    obtain ⟨line', chars'⟩ := Cursor.past_lower line chars behind ahead
    rw [← next.past] at line' chars'
    rw [behind, past_append] at onward
    have rest := ih (rest_past ahead) line' chars' onward
    have place : c.skipSpaces.position.lower lines = (d.past gap).position := by
      obtain ⟨line, chars⟩ := Cursor.past_lower line chars split here'
      rw [next.start, Cursor.position, Cursor.position, line, chars]
      rfl
    rw [Json.lower, List.map_cons, place]
    exact next.again here' follows apart' rest

theorem streams_end {c : Cursor} (none : c.rest = []) : Streams c [] := by
  apply Streams.done
  rw [Cursor.skipSpaces_past (w := []) (x := []) none spaces_nil nofun]
  exact none

/-- A text below another one, behind a line break, is read as if it stood alone, further down. -/
theorem stream_lines {first second : String} {forms more : List (Position × Json)}
    (h : stream first = .ok forms) (h' : stream second = .ok more) :
    stream (first ++ "\n" ++ second) =
      .ok (forms ++ lower (first.toList.count '\n' + 1) more) := by
  have above : encodeChars (first.toList ++ ['\n']) = Utf8.encode first ++ ['\n'.toUInt8] := by
    rw [Utf8.encodeChars_append]
    rfl
  have bytes : Utf8.encode (first ++ "\n" ++ second) =
      Utf8.encode first ++ ('\n'.toUInt8 :: Utf8.encode second) := by
    rw [Utf8.encode, String.toList_append, String.toList_append, Utf8.encodeChars_append]
    change encodeChars (first.toList ++ ['\n']) ++ _ = _
    rw [above]
    simp [Utf8.encode]
  rw [stream_iff] at h h' ⊢
  rw [bytes]
  generalize whole : Cursor.ofBytes (Utf8.encode first ++ ('\n'.toUInt8 :: Utf8.encode second)) = d
  have here : d.rest = Utf8.encode first ++ ('\n'.toUInt8 :: Utf8.encode second) := whole ▸ rfl
  have break_ := rest_past here
  -- The second text begins on a line of its own.
  have behind : d.Behind [] := whole ▸ Cursor.behind_nil _
  have here' : d.rest = encodeChars (first.toList ++ ['\n']) ++ Utf8.encode second := by
    rw [above, here]
    simp
  have start := behind.past here'
  rw [above, past_append, List.nil_append] at start
  have lower_second : Streams ((d.past (Utf8.encode first)).past ['\n'.toUInt8])
      (lower (first.toList.count '\n' + 1) more) := by
    have ahead := rest_past (w := ['\n'.toUInt8]) break_
    rw [← List.append_nil (lower _ more)]
    apply h'.lower (x := []) (by rw [ahead]; exact (List.append_nil _).symm) _ _ (by simp)
    · apply streams_end
      exact rest_past (by rw [ahead]; exact (List.append_nil _).symm)
    · rw [start.line, List.count_append]
      change _ = 1 + _
      rw [List.count_singleton_self]
      omega
    · rw [start.chars, List.rtakeWhile_concat]
      rfl
  have line : d.line = (Cursor.ofBytes (Utf8.encode first)).line + 0 := whole ▸ rfl
  have lower_first := h.lower here line (whole ▸ rfl) (by rintro _ ⟨⟩; rfl)
    (lower_second.blank break_ (by rintro _ (_ | ⟨_, ⟨⟩⟩); rfl))
  have same : lower 0 forms = forms := List.map_id'' (fun _ => rfl) forms
  rwa [same] at lower_first

end ModuleSystem.Json
