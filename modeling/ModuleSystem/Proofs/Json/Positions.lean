import ModuleSystem.Proofs.Json.Progress

namespace ModuleSystem

namespace Utf8

open Json (Cursor)

theorem beginsChar_continuation (n : Nat) : Cursor.beginsChar (continuation n) = false := by
  have value : (continuation n).toNat = 0x80 + n % 64 := by
    rw [continuation, UInt8.toNat_ofNat']
    omega
  have not_low : ¬continuation n < 0x80 := by
    rw [UInt8.lt_iff_toNat_lt, value]
    simp
  have not_high : ¬0xc0 ≤ continuation n := by
    rw [UInt8.le_iff_toNat_le, value]
    simp
    omega
  simp [Cursor.beginsChar, not_low, not_high]

/-- No more than one byte of a character begins it. -/
theorem countP_encodeChar (c : Char) : (encodeChar c).countP Cursor.beginsChar ≤ 1 := by
  have later : ∀ (b : UInt8) (rest : List Nat),
      (b :: rest.map continuation).countP Cursor.beginsChar ≤ 1 := by
    intro b rest
    have none : (rest.map continuation).countP Cursor.beginsChar = 0 := by
      rw [List.countP_eq_zero]
      intro b mem
      obtain ⟨n, _, rfl⟩ := List.mem_map.mp mem
      simp [beginsChar_continuation]
    rw [List.countP_cons, none]
    split <;> omega
  unfold encodeChar
  simp only
  split
  · exact later _ []
  split
  · exact later _ [_]
  split
  · exact later _ [_, _]
  · exact later _ [_, _, _]

theorem countP_encode (text : String) : (encode text).countP Cursor.beginsChar ≤ text.length := by
  rw [encode, encodeChars, ← String.length_toList]
  induction text.toList with
  | nil => exact Nat.le_refl _
  | cons c rest ih =>
    have := countP_encodeChar c
    rw [List.flatMap_cons, List.countP_append, List.length_cons]
    omega

end Utf8

namespace Json

/-- Positions are ordered by line, then by column. -/
def Position.Before (p q : Position) : Prop :=
  p.line < q.line ∨ p.line = q.line ∧ p.column < q.column

namespace Cursor

variable {c c' : Cursor}

/-- What line and column are together, and what they may still gain. -/
def reach (c : Cursor) : Nat := c.line + c.chars + c.rest.countP beginsChar

theorem reach_step_le {b : UInt8} {rest : List UInt8} (here : c.rest = b :: rest) :
    (c.step b rest).reach ≤ c.reach := by
  unfold step reach
  rw [here, List.countP_cons]
  split
  · next newline =>
    have begins : beginsChar b = true := newline ▸ by decide
    simp only [begins, if_pos]
    omega
  · cases beginsChar b
    · simp
    · simp only [Bool.toNat_true, if_pos]
      omega

theorem Onward.reach_le (h : Onward c c') : c'.reach ≤ c.reach := by
  induction h with
  | refl => exact Nat.le_refl _
  | step here _ ih => exact Nat.le_trans ih (reach_step_le here)

theorem skip_skip (p : UInt8 → Bool) {bytes : List UInt8} (h : c.rest = bytes) :
    skip p (skip p bytes c).rest (skip p bytes c) = skip p bytes c := by
  induction bytes generalizing c with
  | nil => rw [skip, h, skip]
  | cons b rest ih =>
    rw [skip]
    split
    · exact ih (rest_step c b rest)
    · next stops => rw [h, skip, if_neg stops]

/-- Going on leads to a later line, or not back in the line. -/
theorem Onward.line_le (h : Onward c c') :
    c.line < c'.line ∨ c.line = c'.line ∧ c.chars ≤ c'.chars := by
  induction h with
  | refl => exact .inr ⟨rfl, Nat.le_refl _⟩
  | @step c c' b rest here more ih =>
    unfold Cursor.step at ih
    split at ih <;> simp only at ih <;> omega

theorem Beyond.before (h : Beyond c c') : c.position.Before c'.position := by
  obtain ⟨b, rest, here, begins, more⟩ := h
  have onward := more.line_le
  unfold step at onward
  simp only [Position.Before, position]
  split at onward
  · simp only at onward
    omega
  · simp only [begins, Bool.toNat_true] at onward
    omega

/-- Where something still follows, line and column are within reach. -/
theorem Beyond.position_le (h : Beyond c c') : c.position.line + c.position.column ≤ c.reach := by
  obtain ⟨b, rest, here, begins, _⟩ := h
  simp only [position, reach, here, List.countP_cons, begins, if_pos]
  omega

end Cursor

open Cursor (Onward Beyond)

/-- The places where the values of a stream begin: each has its value behind it, and then the next
place. -/
theorem streamFrom_starts {fuel : Nat} {c : Cursor} {forms : List (Position × Json)}
    (h : streamFrom fuel c = .ok forms) :
    ∃ starts : List Cursor, forms.map (·.1) = starts.map (·.position) ∧ starts.Pairwise Beyond ∧
      ∀ start ∈ starts, Onward c start ∧ ∃ after, Beyond start after := by
  induction fuel generalizing c forms with
  | zero =>
    cases h
    exact ⟨[], rfl, List.Pairwise.nil, nofun⟩
  | succ fuel ih =>
    simp only [streamFrom] at h
    split at h
    · cases h
      exact ⟨[], rfl, List.Pairwise.nil, nofun⟩
    · obtain ⟨⟨j, after⟩, read, h⟩ := Except.of_bind_ok h
      obtain ⟨_, _, h⟩ := Except.of_bind_ok h
      obtain ⟨rest, onward, h⟩ := Except.of_bind_ok h
      cases h
      obtain ⟨starts, places, apart, behind⟩ := ih onward
      -- The spaces have been skipped before the value is read.
      have spaces : c.skipSpaces.skipSpaces = c.skipSpaces := Cursor.skip_skip Cursor.isSpace rfl
      have taken := (valueAt_takes read).beyond
      rw [spaces] at taken
      refine ⟨c.skipSpaces :: starts, by rw [List.map_cons, List.map_cons, places], ?_, ?_⟩
      · exact List.pairwise_cons.mpr ⟨fun start mem => taken.trans (behind start mem).1, apart⟩
      · rintro start mem
        obtain rfl | mem := List.mem_cons.mp mem
        · exact ⟨c.onward_skipSpaces, after, taken⟩
        · obtain ⟨onward, more⟩ := behind start mem
          exact ⟨c.onward_skipSpaces.trans (taken.onward.trans onward), more⟩

/-- Later values begin at later places, and lines and columns do not pass the length of the text. -/
theorem stream_positions {text : String} {forms : List (Position × Json)}
    (h : stream text = .ok forms) :
    (forms.map (·.1)).Pairwise Position.Before ∧
      ∀ form ∈ forms, form.1.line ≤ text.length ∧ form.1.column ≤ text.length := by
  obtain ⟨starts, places, apart, behind⟩ := streamFrom_starts h
  have pairs : (starts.map (·.position)).Pairwise Position.Before :=
    List.pairwise_map.mpr (apart.imp Beyond.before)
  refine ⟨places ▸ pairs, fun form mem => ?_⟩
  have place : form.1 ∈ starts.map (·.position) := places ▸ List.mem_map_of_mem mem
  obtain ⟨start, mem, same⟩ := List.mem_map.mp place
  obtain ⟨onward, after, beyond⟩ := behind start mem
  have sum := Nat.le_trans beyond.position_le onward.reach_le
  have first := onward.line_le
  have count := Utf8.countP_encode text
  rw [← same]
  simp only [Cursor.reach, Cursor.ofBytes, Cursor.position] at sum first ⊢
  omega

end Json
end ModuleSystem
