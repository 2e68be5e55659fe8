import Mathlib
import ModuleSystem.Text.Utf8

namespace ModuleSystem.Utf8

theorem encodeChars_append (chars more : List Char) :
    encodeChars (chars ++ more) = encodeChars chars ++ encodeChars more := List.flatMap_append

theorem encodeChars_cons_append (c : Char) (chars : List Char) :
    encodeChars (c :: chars) = encodeChar c ++ encodeChars chars := List.flatMap_cons

theorem encodeChar_of_ascii {c : Char} (h : c.toNat < 0x80) :
    encodeChar c = [UInt8.ofNat c.toNat] := by
  unfold encodeChar
  simp only [if_pos h]

theorem continuation_toNat (n : Nat) : (continuation n).toNat = 0x80 + n % 64 := by
  have small : 0x80 + n % 64 < 256 := by omega
  rw [continuation, UInt8.toNat_ofNat', Nat.mod_eq_of_lt small]

theorem toNat_lt_limit (c : Char) : c.toNat < 0x110000 := by
  obtain low | ⟨_, high⟩ : c.toNat < 0xd800 ∨ 0xdfff < c.toNat ∧ c.toNat < 0x110000 := c.valid
  · omega
  · exact high

theorem lead_toNat {base n : Nat} (h : base + n < 256) : (UInt8.ofNat (base + n)).toNat = base + n := by
  rw [UInt8.toNat_ofNat', Nat.mod_eq_of_lt h]

/-- No byte of a character past the ASCII ones looks like one of them. -/
theorem encodeChar_of_not_ascii {c : Char} (h : 0x80 ≤ c.toNat) :
    ∀ b ∈ encodeChar c, 0x80 ≤ b.toNat := by
  have limit := toNat_lt_limit c
  unfold encodeChar
  simp only
  rw [if_neg (by omega)]
  repeat' split
  all_goals
    simp only [List.forall_mem_cons, List.not_mem_nil, false_imp_iff, implies_true, and_true,
      continuation_toNat]
    rw [lead_toNat (by omega)]
    omega

section Steps

variable {lowest highest : UInt8} {n bits seen start : Nat} {rest : List UInt8}

/-- What comes before the text that is still to be decoded. -/
def prepend (c : Char) : Except Fault (List Char) → Except Fault (List Char)
  | .ok chars => .ok (c :: chars)
  | .error e => .error e

theorem decodeFrom_last (low : lowest.toNat ≤ 0x80 + n % 64) (high : 0x80 + n % 64 ≤ highest.toNat) :
    decodeFrom (.inside 1 lowest highest bits seen) start (continuation n :: rest) =
      prepend (Char.ofNat (bits * 64 + n % 64)) (decodeFrom .between (start + seen + 1) rest) := by
  have within : lowest ≤ continuation n ∧ continuation n ≤ highest := by
    rw [UInt8.le_iff_toNat_le, UInt8.le_iff_toNat_le, continuation_toNat]
    exact ⟨low, high⟩
  have value : (continuation n).toNat % 64 = n % 64 := by
    rw [continuation_toNat]
    omega
  rw [decodeFrom, if_pos within]
  simp only [value, Nat.le_refl, if_true]
  cases decodeFrom .between (start + seen + 1) rest <;> rfl

theorem decodeFrom_middle {missing : Nat} (low : lowest.toNat ≤ 0x80 + n % 64)
    (high : 0x80 + n % 64 ≤ highest.toNat) :
    decodeFrom (.inside (missing + 2) lowest highest bits seen) start (continuation n :: rest) =
      decodeFrom (.inside (missing + 1) 0x80 0xbf (bits * 64 + n % 64) (seen + 1)) start rest := by
  have within : lowest ≤ continuation n ∧ continuation n ≤ highest := by
    rw [UInt8.le_iff_toNat_le, UInt8.le_iff_toNat_le, continuation_toNat]
    exact ⟨low, high⟩
  have value : (continuation n).toNat % 64 = n % 64 := by
    rw [continuation_toNat]
    omega
  have more : ¬missing + 2 ≤ 1 := by omega
  rw [decodeFrom, if_pos within]
  simp only [value, more, if_false]
  rfl

theorem decodeFrom_lead {b : UInt8} {state : State} (large : 0x80 ≤ b.toNat)
    (first : lead b = some state) :
    decodeFrom .between start (b :: rest) = decodeFrom state start rest := by
  have not_ascii : ¬b < 0x80 := by
    rw [UInt8.lt_iff_toNat_lt]
    exact Nat.not_lt.mpr large
  rw [decodeFrom, if_neg not_ascii, first]

end Steps

/-- A character comes back from its bytes. -/
theorem decodeFrom_encodeChar (c : Char) (start : Nat) (rest : List UInt8) :
    decodeFrom .between start (encodeChar c ++ rest) =
      prepend c (decodeFrom .between (start + (encodeChar c).length) rest) := by
  have same := Char.ofNat_toNat c
  have valid : c.toNat < 0xd800 ∨ 0xdfff < c.toNat ∧ c.toNat < 0x110000 := c.valid
  unfold encodeChar
  simp only
  generalize c.toNat = n at same valid
  split
  · next one =>
    have value : (UInt8.ofNat n).toNat = n := by
      rw [UInt8.toNat_ofNat', Nat.mod_eq_of_lt (by omega)]
    have ascii : UInt8.ofNat n < 0x80 := by
      rw [UInt8.lt_iff_toNat_lt, value]
      exact one
    rw [List.singleton_append, decodeFrom, if_pos ascii, value, same]
    cases decodeFrom .between (start + 1) rest <;> rfl
  split
  · next two =>
    have value := lead_toNat (show 0xc0 + n / 64 < 256 by omega)
    have first : lead (UInt8.ofNat (0xc0 + n / 64)) = some (.inside 1 0x80 0xbf (n / 64) 1) := by
      unfold lead
      simp only [value]
      rw [if_pos (by omega), Nat.add_sub_cancel_left]
    have whole : n / 64 * 64 + n % 64 = n := by omega
    simp only [List.cons_append, List.nil_append]
    rw [decodeFrom_lead (by omega) first, decodeFrom_last (by simp) (by simp; omega), whole, same]
    rfl
  split
  · next three =>
    have value := lead_toNat (show 0xe0 + n / 4096 < 256 by omega)
    -- The range of the second byte keeps out overlong forms and surrogates.
    have first : ∃ lowest highest : UInt8,
        lead (UInt8.ofNat (0xe0 + n / 4096)) = some (.inside 2 lowest highest (n / 4096) 1) ∧
          lowest.toNat ≤ 0x80 + n / 64 % 64 ∧ 0x80 + n / 64 % 64 ≤ highest.toNat := by
      unfold lead
      simp only [value]
      rw [if_neg (by omega)]
      split
      · exact ⟨0xa0, 0xbf, by rw [show n / 4096 = 0 by omega], by simp; omega, by simp; omega⟩
      split
      · exact ⟨0x80, 0x9f, by rw [show n / 4096 = 13 by omega], by simp, by simp; omega⟩
      rw [if_pos (by omega), Nat.add_sub_cancel_left]
      exact ⟨0x80, 0xbf, rfl, by simp, by simp; omega⟩
    obtain ⟨lowest, highest, first, low, high⟩ := first
    have whole : (n / 4096 * 64 + n / 64 % 64) * 64 + n % 64 = n := by omega
    simp only [List.cons_append, List.nil_append]
    rw [decodeFrom_lead (by omega) first, decodeFrom_middle low high,
      decodeFrom_last (by simp) (by simp; omega), whole, same]
    rfl
  · next four =>
    have value := lead_toNat (show 0xf0 + n / 262144 < 256 by omega)
    have first : ∃ lowest highest : UInt8,
        lead (UInt8.ofNat (0xf0 + n / 262144)) = some (.inside 3 lowest highest (n / 262144) 1) ∧
          lowest.toNat ≤ 0x80 + n / 4096 % 64 ∧ 0x80 + n / 4096 % 64 ≤ highest.toNat := by
      unfold lead
      simp only [value]
      rw [if_neg (by omega), if_neg (by omega), if_neg (by omega), if_neg (by omega)]
      split
      · exact ⟨0x90, 0xbf, by rw [show n / 262144 = 0 by omega], by simp; omega, by simp; omega⟩
      split
      · rw [Nat.add_sub_cancel_left]
        exact ⟨0x80, 0xbf, rfl, by simp, by simp; omega⟩
      rw [if_pos (by omega)]
      exact ⟨0x80, 0x8f, by rw [show n / 262144 = 4 by omega], by simp, by simp; omega⟩
    obtain ⟨lowest, highest, first, low, high⟩ := first
    have whole : ((n / 262144 * 64 + n / 4096 % 64) * 64 + n / 64 % 64) * 64 + n % 64 = n := by
      omega
    simp only [List.cons_append, List.nil_append]
    rw [decodeFrom_lead (by omega) first, decodeFrom_middle low high,
      decodeFrom_middle (by simp) (by simp; omega), decodeFrom_last (by simp) (by simp; omega),
      whole, same]
    rfl

theorem decodeFrom_encodeChars (chars : List Char) (start : Nat) :
    decodeFrom .between start (encodeChars chars) = .ok chars := by
  induction chars generalizing start with
  | nil => rfl
  | cons c rest ih => rw [encodeChars_cons_append, decodeFrom_encodeChar, ih, prepend]

theorem decode_encodeChars (chars : List Char) :
    decode (encodeChars chars) = .ok (String.ofList chars) := by
  rw [decode, decodeChars, decodeFrom_encodeChars]

end ModuleSystem.Utf8
