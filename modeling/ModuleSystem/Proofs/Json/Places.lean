import ModuleSystem.Proofs.Json.Locality

namespace ModuleSystem

namespace Utf8

open Json (Cursor)

/-- One byte begins a character. The others continue it. -/
theorem encodeChar_shape (ch : Char) : ∃ b rest, encodeChar ch = b :: rest ∧
    Cursor.beginsChar b = true ∧ ∀ b ∈ rest, Cursor.beginsChar b = false := by
  have high : ∀ {base n : Nat}, base + n < 256 → 0xc0 ≤ base →
      Cursor.beginsChar (UInt8.ofNat (base + n)) = true := by
    intro base n small large
    have le : (0xc0 : UInt8) ≤ UInt8.ofNat (base + n) := by
      rw [UInt8.le_iff_toNat_le, lead_toNat small]
      exact Nat.le_trans large (Nat.le_add_right _ _)
    rw [Cursor.beginsChar, decide_eq_true le, Bool.or_true]
  have limit := toNat_lt_limit ch
  by_cases ascii : ch.toNat < 0x80
  · refine ⟨_, [], encodeChar_of_ascii ascii, ?_, List.forall_mem_nil _⟩
    have low : UInt8.ofNat ch.toNat < 0x80 := by
      rw [UInt8.lt_iff_toNat_lt, UInt8.toNat_ofNat', Nat.mod_eq_of_lt (by omega)]
      exact ascii
    simp [Cursor.beginsChar, low]
  · unfold encodeChar
    simp only [if_neg ascii]
    split
    · exact ⟨_, _, rfl, high (by omega) (by omega), by simp [beginsChar_continuation]⟩
    split
    · exact ⟨_, _, rfl, high (by omega) (by omega), by simp [beginsChar_continuation]⟩
    · exact ⟨_, _, rfl, high (by omega) (by omega), by simp [beginsChar_continuation]⟩

/-- A character that begins with an ASCII byte is that byte. -/
theorem encodeChar_ascii {ch : Char} {b : UInt8} {x y : List UInt8}
    (encoded : encodeChar ch ++ x = b :: y) (ascii : b < 0x80) :
    ch.toNat = b.toNat ∧ encodeChar ch = [b] ∧ x = y := by
  have small : ch.toNat < 0x80 := by
    by_contra large
    obtain ⟨b', rest, shape, _⟩ := encodeChar_shape ch
    have high := encodeChar_of_not_ascii (Nat.le_of_not_lt large) b'
    rw [shape, List.cons_append, List.cons.injEq] at encoded
    rw [shape, encoded.1] at high
    exact absurd (UInt8.lt_iff_toNat_lt.mp ascii) (Nat.not_lt_of_le (high List.mem_cons_self))
  have one := encodeChar_of_ascii small
  rw [one, List.singleton_append, List.cons.injEq] at encoded
  obtain ⟨rfl, same⟩ := encoded
  refine ⟨?_, one, same⟩
  rw [UInt8.toNat_ofNat', Nat.mod_eq_of_lt (by omega)]

theorem eq_of_encodeChar {ch c : Char} {rest : List UInt8}
    (encoded : encodeChar ch = c.toUInt8 :: rest) (small : c.toNat < 0x80) : ch = c := by
  have byte : c.toUInt8.toNat = c.toNat := by
    rw [Char.toUInt8, UInt32.toNat_toUInt8]
    exact Nat.mod_eq_of_lt (Nat.lt_trans small (by decide))
  have ascii : c.toUInt8 < 0x80 := by
    rw [UInt8.lt_iff_toNat_lt, byte]
    exact small
  have whole : encodeChar ch ++ [] = c.toUInt8 :: rest := by rw [List.append_nil, encoded]
  exact Char.toNat_inj.mp ((encodeChar_ascii whole ascii).1.trans byte)

/-- Where nothing follows, or the first byte of a character, the text ends or goes on with a
character. -/
theorem exists_split {chars : List Char} {v r : List UInt8} (whole : encodeChars chars = v ++ r)
    (begins : ∀ b, r.head? = some b → Cursor.beginsChar b = true) :
    ∃ first second, chars = first ++ second ∧ encodeChars first = v ∧ encodeChars second = r := by
  induction chars generalizing v with
  | nil =>
    obtain ⟨rfl, rfl⟩ := List.append_eq_nil_iff.mp whole.symm
    exact ⟨[], [], rfl, rfl, rfl⟩
  | cons ch more ih =>
    cases v with
    | nil => exact ⟨[], ch :: more, rfl, rfl, whole⟩
    | cons b' v =>
      obtain ⟨b, rest, encoded, _, continued⟩ := encodeChar_shape ch
      rw [encodeChars_cons_append, encoded, List.cons_append, List.cons_append,
        List.cons.injEq] at whole
      obtain ⟨rfl, whole⟩ := whole
      -- The other bytes of the character lie before the split, since none of them begins one.
      obtain ⟨u, rfl, more_eq⟩ | ⟨u, rest_eq, r_eq⟩ := List.append_eq_append_iff.mp whole
      · obtain ⟨first, second, rfl, first_eq, second_eq⟩ := ih more_eq
        refine ⟨ch :: first, second, rfl, ?_, second_eq⟩
        rw [encodeChars_cons_append, encoded, first_eq, List.cons_append]
      · cases u with
        | nil =>
          rw [List.append_nil] at rest_eq
          exact ⟨[ch], more, rfl, by rw [encodeChars_cons_append, encoded, rest_eq]; simp [encodeChars],
            r_eq.symm⟩
        | cons b' u =>
          have begun := begins b' (by rw [r_eq]; rfl)
          rw [continued b' (by rw [rest_eq]; simp)] at begun
          cases begun

/-- The same behind an ASCII byte. -/
theorem exists_split_after {chars : List Char} {v r : List UInt8} {e : UInt8} (ascii : e < 0x80)
    (whole : encodeChars chars = v ++ e :: r) :
    ∃ first second, chars = first ++ second ∧ encodeChars first = v ++ [e] ∧
      encodeChars second = r := by
  obtain ⟨first, later, rfl, first_eq, later_eq⟩ := exists_split whole (by
    intro b head
    cases head
    simp [Cursor.beginsChar, ascii])
  cases later with
  | nil => cases later_eq
  | cons ch second =>
    rw [encodeChars_cons_append] at later_eq
    obtain ⟨_, one, second_eq⟩ := encodeChar_ascii later_eq ascii
    refine ⟨first ++ [ch], second, by simp, ?_, second_eq⟩
    rw [encodeChars_append, first_eq, encodeChars_cons_append, one]
    rfl

end Utf8

namespace Json

open Utf8 (encodeChar encodeChars)

/-- White space between values. -/
def isBlank (ch : Char) : Bool := ch = ' ' || ch = '\n' || ch = '\t' || ch = '\r'

/-- Characters of white space are told by their first byte. -/
theorem isBlank_eq_isSpace {ch : Char} {b : UInt8} {rest : List UInt8}
    (encoded : encodeChar ch = b :: rest) : isBlank ch = Cursor.isSpace b := by
  have same : ∀ {c : Char}, b = c.toUInt8 → c.toNat < 0x80 → ch = c := by
    intro c here small
    rw [here] at encoded
    exact Utf8.eq_of_encodeChar encoded small
  apply Bool.eq_iff_iff.mpr
  simp only [Cursor.isSpace, isBlank, Bool.or_eq_true, decide_eq_true_eq]
  constructor
  · intro blank
    obtain ((rfl | rfl) | rfl) | rfl := blank <;> cases encoded <;> decide
  · intro space
    obtain ((h | h) | h) | h := space
    · exact .inl (.inl (.inl (same h (by decide))))
    · exact .inl (.inl (.inr (same h (by decide))))
    · exact .inl (.inr (same h (by decide)))
    · exact .inr (same h (by decide))

theorem isBlank_of_spaces {chars : List Char} (blank : Spaces (encodeChars chars)) :
    ∀ ch ∈ chars, isBlank ch = true := by
  intro ch mem
  obtain ⟨b, rest, encoded, _⟩ := Utf8.encodeChar_shape ch
  rw [isBlank_eq_isSpace encoded]
  exact blank b (List.mem_flatMap.mpr ⟨ch, mem, encoded ▸ List.mem_cons_self⟩)

/-- The place of the character that comes after `before`. -/
def placeAfter (before : List Char) : Position :=
  ⟨before.count '\n' + 1, (before.rtakeWhile (· ≠ '\n')).length + 1⟩

namespace Cursor

/-- The cursor stands behind `before`, from where the text begins. -/
structure Behind (before : List Char) (c : Cursor) : Prop where
  line : c.line = before.count '\n' + 1
  chars : c.chars = (before.rtakeWhile (· ≠ '\n')).length

theorem Behind.position {before : List Char} {c : Cursor} (h : c.Behind before) :
    c.position = placeAfter before := by
  rw [Cursor.position, h.line, h.chars, placeAfter]

theorem behind_nil (bytes : List UInt8) : (ofBytes bytes).Behind [] := ⟨rfl, rfl⟩

theorem past_continued {c : Cursor} {w x : List UInt8} (here : c.rest = w ++ x)
    (continued : ∀ b ∈ w, beginsChar b = false) :
    (c.past w).line = c.line ∧ (c.past w).chars = c.chars := by
  induction w generalizing c with
  | nil => exact ⟨rfl, rfl⟩
  | cons b w ih =>
    have none := continued b List.mem_cons_self
    have stay : b ≠ '\n'.toUInt8 := by
      rintro rfl
      exact absurd none (by decide)
    obtain ⟨line, chars⟩ := ih (rest_step c b (w ++ x)) fun b mem =>
      continued b (List.mem_cons_of_mem _ mem)
    rw [past_cons (x := w ++ x) here, line, chars, step, if_neg stay, none]
    exact ⟨rfl, rfl⟩

theorem Behind.char {before : List Char} {c : Cursor} (h : c.Behind before) {ch : Char}
    {x : List UInt8} (here : c.rest = encodeChar ch ++ x) :
    (c.past (encodeChar ch)).Behind (before ++ [ch]) := by
  obtain ⟨b, rest, encoded, begins, continued⟩ := Utf8.encodeChar_shape ch
  rw [encoded] at here ⊢
  rw [past_cons (x := rest ++ x) here]
  obtain ⟨line, chars⟩ := past_continued (rest_step c b (rest ++ x)) continued
  by_cases newline : ch = '\n'
  · have b_eq : b = '\n'.toUInt8 := by
      subst newline
      cases encoded
      rfl
    rw [b_eq] at line chars ⊢
    constructor
    · rw [line, newline, step, if_pos rfl, h.line, List.count_append]
      rfl
    · rw [chars, newline, step, if_pos rfl, List.rtakeWhile_concat]
      rfl
  · have stay : b ≠ '\n'.toUInt8 := by
      rintro rfl
      exact newline (Utf8.eq_of_encodeChar encoded (by decide))
    constructor
    · rw [line, step, if_neg stay, List.count_append, h.line, List.count_singleton]
      simp [newline]
    · rw [chars, step, if_neg stay, begins, h.chars, List.rtakeWhile_concat]
      simp [newline]

theorem Behind.past {before more : List Char} {c : Cursor} (h : c.Behind before) {x : List UInt8}
    (here : c.rest = encodeChars more ++ x) :
    (c.past (encodeChars more)).Behind (before ++ more) := by
  induction more generalizing before c with
  | nil => rwa [List.append_nil]
  | cons ch more ih =>
    rw [Utf8.encodeChars_cons_append, List.append_assoc] at here
    rw [Utf8.encodeChars_cons_append, past_append, ← List.singleton_append, ← List.append_assoc]
    exact ih (h.char here) (rest_past here)

/-- The same bytes, `n` lines further down. -/
theorem past_lower {c d : Cursor} {n : Nat} (line : d.line = c.line + n) (chars : d.chars = c.chars)
    {w x y : List UInt8} (here : c.rest = w ++ x) (there : d.rest = w ++ y) :
    (d.past w).line = (c.past w).line + n ∧ (d.past w).chars = (c.past w).chars := by
  induction w generalizing c d with
  | nil => exact ⟨line, chars⟩
  | cons b w ih =>
    rw [past_cons here, past_cons there]
    apply ih _ _ (rest_step c b _) (rest_step d b _)
    · unfold step
      split <;> simp only [line]
      omega
    · unfold step
      split <;> simp only [chars]

end Cursor
end Json
end ModuleSystem
