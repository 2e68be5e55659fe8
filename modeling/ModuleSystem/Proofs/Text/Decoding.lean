import Mathlib
import ModuleSystem.Text.Utf8

namespace ModuleSystem.Utf8

theorem toNat_ofNat_le (n : Nat) : (Char.ofNat n).toNat ≤ n := by
  unfold Char.ofNat
  split
  · simp [Char.toNat, Char.ofNatAux]
  · exact Nat.zero_le n

/-- The bits of a character of `total` bytes stay below what so many bytes can write, also once the
`missing` ones have come. -/
def Bounded (missing bits total : Nat) : Prop :=
  total = 2 ∧ (bits + 1) * 64 ^ missing ≤ 0x800 ∨
    total = 3 ∧ (bits + 1) * 64 ^ missing ≤ 0x10000 ∨ total = 4

theorem Bounded.next {missing bits total : Nat} (h : Bounded (missing + 1) bits total) (b : Nat) :
    Bounded missing (bits * 64 + b % 64) total := by
  have room : (bits * 64 + b % 64 + 1) * 64 ^ missing ≤ (bits + 1) * 64 ^ (missing + 1) := by
    rw [Nat.pow_succ, Nat.mul_comm (64 ^ missing), ← Nat.mul_assoc]
    exact Nat.mul_le_mul_right _ (by omega)
  obtain ⟨two, bound⟩ | ⟨three, bound⟩ | four := h
  · exact .inl ⟨two, by omega⟩
  · exact .inr (.inl ⟨three, by omega⟩)
  · exact .inr (.inr four)

theorem Bounded.encodeChar_length {bits total : Nat} (h : Bounded 0 bits total) :
    (encodeChar (Char.ofNat bits)).length ≤ total := by
  have small := toNat_ofNat_le bits
  simp only [Bounded, Nat.pow_zero, Nat.mul_one] at h
  unfold encodeChar
  simp only
  repeat' split
  all_goals simp only [List.length_cons, List.length_nil]; omega

/-- What is known of the bytes that were read of a character. -/
def State.Sound : State → Prop
  | .between => True
  | .inside missing _ _ bits seen => 1 ≤ missing ∧ Bounded missing bits (missing + seen)

def State.seen : State → Nat
  | .between => 0
  | .inside _ _ _ _ seen => seen

theorem lead_sound {b : UInt8} {state : State} (h : lead b = some state) :
    state.Sound ∧ state.seen = 1 := by
  unfold lead at h
  simp only at h
  repeat' split at h
  all_goals cases h
  all_goals refine ⟨⟨by omega, ?_⟩, rfl⟩
  · exact .inl ⟨rfl, by omega⟩
  · exact .inr (.inl ⟨rfl, by omega⟩)
  · exact .inr (.inl ⟨rfl, by omega⟩)
  · exact .inr (.inl ⟨rfl, by omega⟩)
  · exact .inr (.inr rfl)
  · exact .inr (.inr rfl)
  · exact .inr (.inr rfl)

theorem encodeChars_cons (c : Char) (chars : List Char) :
    (encodeChars (c :: chars)).length = (encodeChar c).length + (encodeChars chars).length := by
  simp [encodeChars]

/-- A text has no more characters than bytes. -/
theorem length_le_encode (text : String) : text.length ≤ (encode text).length := by
  have some : ∀ c, 1 ≤ (encodeChar c).length := by
    intro c
    unfold encodeChar
    simp only
    split_ifs <;> simp
  rw [encode, ← String.length_toList]
  induction text.toList with
  | nil => exact Nat.le_refl _
  | cons c rest ih =>
    have first := some c
    rw [encodeChars_cons, List.length_cons]
    omega

theorem decodeFrom_length {state : State} {start : Nat} {bytes : List UInt8} {chars : List Char}
    (sound : state.Sound) (h : decodeFrom state start bytes = .ok chars) :
    (encodeChars chars).length ≤ state.seen + bytes.length := by
  induction bytes generalizing state start chars with
  | nil =>
    cases state with
    | between =>
      cases h
      exact Nat.zero_le _
    | inside => cases h
  | cons b rest ih =>
    cases state with
    | between =>
      rw [decodeFrom] at h
      split at h
      · next small =>
        split at h
        · next more decoded =>
          cases h
          have one : (encodeChar (Char.ofNat b.toNat)).length ≤ 1 := by
            have ascii : (Char.ofNat b.toNat).toNat < 0x80 :=
              Nat.lt_of_le_of_lt (toNat_ofNat_le _) small
            simp [encodeChar, ascii]
          have onward := ih (show State.Sound .between from trivial) decoded
          simp only [encodeChars_cons, State.seen, List.length_cons] at onward ⊢
          omega
        · cases h
      · split at h
        · next inner first =>
          obtain ⟨sound, seen⟩ := lead_sound first
          have onward := ih sound h
          rw [List.length_cons]
          omega
        · cases h
    | inside missing lowest highest bits seen =>
      obtain ⟨some, bounded⟩ := sound
      obtain ⟨missing, rfl⟩ := Nat.exists_eq_add_of_le' some
      have more := bounded.next b.toNat
      simp only [decodeFrom] at h
      split at h
      · split at h
        · split at h
          · next last _ _ decoded =>
            cases h
            obtain rfl : missing = 0 := by omega
            have whole := more.encodeChar_length
            have onward := ih (show State.Sound .between from trivial) decoded
            simp only [encodeChars_cons, State.seen, List.length_cons] at onward ⊢
            omega
          · cases h
        · have onward := ih (show State.Sound (.inside missing _ _ _ (seen + 1)) from
            ⟨by omega, by rwa [show missing + (seen + 1) = missing + 1 + seen by omega]⟩) h
          simp only [State.seen, List.length_cons] at onward ⊢
          omega
      · cases h

theorem encode_length_of_decode {bytes : List UInt8} {text : String}
    (h : decode bytes = .ok text) : (encode text).length ≤ bytes.length := by
  unfold decode at h
  split at h
  · next chars decoded =>
    cases h
    have bound := decodeFrom_length (show State.Sound .between from trivial) decoded
    simpa [encode, State.seen] using bound
  · cases h

end ModuleSystem.Utf8
