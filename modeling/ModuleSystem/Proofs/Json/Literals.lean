import ModuleSystem.Json.Printer
import ModuleSystem.Proofs.Json.Progress
import ModuleSystem.Proofs.Text.Encoding

namespace ModuleSystem.Json

open Utf8 (encodeChar encodeChars encodeChars_append encodeChars_cons_append)

namespace Cursor

theorem rest_advance {c : Cursor} {b : UInt8} {rest : List UInt8} (h : c.rest = b :: rest) :
    c.advance.rest = rest := by
  simp only [advance, h, rest_step]

theorem rest_skip {p : UInt8 → Bool} {bytes spaces rest : List UInt8} {c : Cursor}
    (here : c.rest = bytes) (h : bytes = spaces ++ rest) (skipped : ∀ b ∈ spaces, p b = true)
    (ends : ∀ b, rest.head? = some b → p b = false) : (skip p bytes c).rest = rest := by
  induction spaces generalizing bytes c with
  | nil =>
    cases rest with
    | nil =>
      subst h
      exact here
    | cons b more =>
      subst h
      rw [List.nil_append] at here ⊢
      rw [skip, if_neg (by rw [ends b rfl]; exact Bool.false_ne_true)]
      exact here
  | cons b spaces ih =>
    subst h
    rw [List.cons_append] at here ⊢
    rw [skip, if_pos (skipped b List.mem_cons_self)]
    exact ih (rest_step c b _) rfl fun b mem => skipped b (List.mem_cons_of_mem _ mem)

/-- White space before something else is stepped over. -/
theorem rest_skipSpaces {c : Cursor} {spaces rest : List UInt8} {b : UInt8}
    (h : c.rest = spaces ++ b :: rest) (blank : ∀ b ∈ spaces, isSpace b = true)
    (ends : isSpace b = false) : c.skipSpaces.rest = b :: rest := by
  refine rest_skip rfl h blank fun b' first => ?_
  cases first
  exact ends

end Cursor

/-- Bytes inside a string that lead from one state to another, and the bytes that they add. -/
inductive Leads : StringState → List UInt8 → List UInt8 → StringState → Prop
  | stay (state : StringState) : Leads state [] [] state
  | step {state next last : StringState} {b : UInt8} {rest added more : List UInt8}
      (one : stringStep b state = .next next added) (onward : Leads next rest more last) :
      Leads state (b :: rest) (added ++ more) last

namespace Leads

variable {first mid last : StringState} {bytes bytes' added added' : List UInt8}

theorem single {b : UInt8} (one : stringStep b first = .next last added) :
    Leads first [b] added last := by
  have h := step one (stay last)
  rwa [List.append_nil] at h

/-- A byte that adds nothing yet. -/
theorem skip {b : UInt8} (one : stringStep b first = .next mid []) (onward : Leads mid bytes added last) :
    Leads first (b :: bytes) added last := step one onward

theorem append (h : Leads first bytes added mid) (h' : Leads mid bytes' added' last) :
    Leads first (bytes ++ bytes') (added ++ added') last := by
  induction h with
  | stay => exact h'
  | step one _ ih =>
    rw [List.cons_append, List.append_assoc]
    exact .step one (ih h')

theorem stringBytes (h : Leads first bytes added last) {more : List UInt8} (read : List UInt8)
    {c : Cursor} (here : c.rest = bytes ++ more) :
    ∃ c', c'.rest = more ∧ stringBytes (bytes ++ more) first read c =
      stringBytes more last (added.reverse ++ read) c' := by
  induction h generalizing c read with
  | stay => exact ⟨c, here, rfl⟩
  | @step _ _ _ b rest added more' one _ ih =>
    obtain ⟨c', after, onward⟩ := ih (added.reverse ++ read) (Cursor.rest_step c b _)
    refine ⟨c', after, ?_⟩
    rw [List.cons_append, Json.stringBytes, one, List.reverse_append, List.append_assoc]
    exact onward

end Leads

/-- Bytes that stand for themselves in a string. -/
theorem leads_literal {bytes : List UInt8} (literal : ∀ b ∈ bytes,
    b ≠ '\x22'.toUInt8 ∧ b ≠ '\x5c'.toUInt8 ∧ ¬b < 0x20) : Leads .plain bytes bytes .plain := by
  induction bytes with
  | nil => exact .stay _
  | cons b rest ih =>
    obtain ⟨quote, backslash, control⟩ := literal b List.mem_cons_self
    have one : stringStep b .plain = .next .plain [b] := by
      simp only [stringStep, if_neg quote, if_neg backslash, if_neg control]
    exact .step one (ih fun b mem => literal b (List.mem_cons_of_mem _ mem))

/-- A short escape names one byte. -/
theorem leads_short {b byte : UInt8} (named : shortEscape? b = some byte)
    (short : b ≠ 'u'.toUInt8) : Leads .plain ['\x5c'.toUInt8, b] [byte] .plain := by
  have one : stringStep b .escape = .next .plain [byte] := by
    simp only [stringStep, if_neg short, named]
  exact .skip rfl (.single one)

/-- Four digits name a character. -/
theorem leads_hex {a b d e : UInt8} {unit : Nat} (value : hexValue? [e, d, b, a] = some unit)
    (low : unit < 0xd800) :
    Leads .plain ['\x5c'.toUInt8, 'u'.toUInt8, a, b, d, e] (encodeChar (Char.ofNat unit)) .plain := by
  have last : stringStep e (.hex [d, b, a]) = .next .plain (encodeChar (Char.ofNat unit)) := by
    have not_low : ¬(0xdc00 ≤ unit ∧ unit ≤ 0xdfff) := by omega
    have not_high : ¬(0xd800 ≤ unit ∧ unit ≤ 0xdbff) := by omega
    have full : ¬[d, b, a].length < 3 := by simp
    simp only [stringStep, if_neg full, value, unitStep, if_neg not_low, if_neg not_high]
  exact .skip rfl (.skip rfl (.skip rfl (.skip rfl (.skip rfl (.single last)))))

theorem control_digits : ∀ n < 0x20,
    hexValue? [(Nat.digitChar (n % 16)).toUInt8, (Nat.digitChar (n / 16)).toUInt8, '0'.toUInt8,
      '0'.toUInt8] = some n ∧
    encodeChar (Nat.digitChar (n / 16)) = [(Nat.digitChar (n / 16)).toUInt8] ∧
    encodeChar (Nat.digitChar (n % 16)) = [(Nat.digitChar (n % 16)).toUInt8] := by decide

/-- A character past the controls that is neither a quote nor a backslash. -/
theorem literal_encodeChar {ch : Char} (quote : ch ≠ '\x22') (backslash : ch ≠ '\x5c')
    (control : ¬ch.toNat < 0x20) : ∀ b ∈ encodeChar ch,
      b ≠ '\x22'.toUInt8 ∧ b ≠ '\x5c'.toUInt8 ∧ ¬b < 0x20 := by
  intro b mem
  have other : ∀ {ch' : Char}, ch ≠ ch' → ch.toNat ≠ ch'.toNat := fun ne same =>
    ne (Char.toNat_inj.mp same)
  have bytes : b.toNat = ch.toNat ∨ 0x80 ≤ b.toNat := by
    by_cases ascii : ch.toNat < 0x80
    · rw [Utf8.encodeChar_of_ascii ascii, List.mem_singleton] at mem
      refine .inl ?_
      rw [mem, UInt8.toNat_ofNat', Nat.mod_eq_of_lt (by omega)]
    · exact .inr (Utf8.encodeChar_of_not_ascii (Nat.not_lt.mp ascii) b mem)
  have quote : b.toNat ≠ 0x22 := by
    have : ch.toNat ≠ 0x22 := other quote
    omega
  have backslash : b.toNat ≠ 0x5c := by
    have : ch.toNat ≠ 0x5c := other backslash
    omega
  refine ⟨fun same => quote (same ▸ rfl), fun same => backslash (same ▸ rfl), fun small => ?_⟩
  have small : b.toNat < 0x20 := UInt8.lt_iff_toNat_lt.mp small
  omega

/-- Whatever a character is, its escape is read as its own bytes. -/
theorem leads_escapeChar (ch : Char) :
    Leads .plain (encodeChars (escapeChar ch)) (encodeChar ch) .plain := by
  unfold escapeChar
  split
  · next named =>
    simp only [Bool.or_eq_true, decide_eq_true_eq] at named
    obtain rfl | rfl := named
    · exact leads_short (b := 0x22) rfl (by decide)
    · exact leads_short (b := 0x5c) rfl (by decide)
  split
  · next named =>
    subst named
    exact leads_short (b := 0x62) rfl (by decide)
  split
  · next named =>
    subst named
    exact leads_short (b := 0x66) rfl (by decide)
  split
  · next named =>
    subst named
    exact leads_short (b := 0x6e) rfl (by decide)
  split
  · next named =>
    subst named
    exact leads_short (b := 0x72) rfl (by decide)
  split
  · next named =>
    subst named
    exact leads_short (b := 0x74) rfl (by decide)
  split
  · next control =>
    obtain ⟨value, high, low⟩ := control_digits ch.toNat control
    have written := leads_hex value (by omega)
    rw [Char.ofNat_toNat] at written
    have bytes : encodeChars ['\x5c', 'u', '0', '0', Nat.digitChar (ch.toNat / 16),
        Nat.digitChar (ch.toNat % 16)] = ['\x5c'.toUInt8, 'u'.toUInt8, '0'.toUInt8, '0'.toUInt8,
          (Nat.digitChar (ch.toNat / 16)).toUInt8, (Nat.digitChar (ch.toNat % 16)).toUInt8] := by
      simp only [encodeChars, List.flatMap_cons, List.flatMap_nil, high, low]
      rfl
    rw [bytes]
    exact written
  · next quote _ _ _ _ _ control =>
    have plain : ch ≠ '\x22' ∧ ch ≠ '\x5c' := by simpa using quote
    have whole : encodeChars [ch] = encodeChar ch := List.flatMap_singleton ..
    rw [whole]
    exact leads_literal (literal_encodeChar plain.1 plain.2 control)

theorem leads_escaped (chars : List Char) :
    Leads .plain (encodeChars (chars.flatMap escapeChar)) (encodeChars chars) .plain := by
  induction chars with
  | nil => exact .stay _
  | cons ch rest ih =>
    rw [List.flatMap_cons, Utf8.encodeChars_append, Utf8.encodeChars_cons_append]
    exact (leads_escapeChar ch).append ih

/-- Every string comes back, and the reader stands past its closing quote. -/
theorem stringTail_written (s : String) {c : Cursor} {rest : List UInt8}
    (here : c.rest = encodeChars (s.toList.flatMap escapeChar) ++ '\x22'.toUInt8 :: rest) :
    ∃ c', stringTail c = .ok (s, c') ∧ c'.rest = rest := by
  obtain ⟨c', after, read⟩ := (leads_escaped s.toList).stringBytes [] here
  refine ⟨c'.advance, ?_, Cursor.rest_advance after⟩
  have bytes : stringBytes c.rest .plain [] c = .ok (encodeChars s.toList, c') := by
    rw [here, read, stringBytes, show stringStep '\x22'.toUInt8 .plain = .finished from rfl]
    simp
  unfold stringTail
  rw [bytes]
  simp only [Utf8.decode_encodeChars, String.ofList_toList]

theorem encodeChars_stringText (s : String) :
    encodeChars (stringText s) = '\x22'.toUInt8 ::
      (encodeChars (s.toList.flatMap escapeChar) ++ ['\x22'.toUInt8]) := by
  rw [stringText, List.cons_append, encodeChars_cons_append, encodeChars_append]
  rfl

/-- The quoted text of a string is read after its opening quote. -/
theorem stringTail_of_text {s : String} {c : Cursor} {rest : List UInt8}
    (here : c.rest = encodeChars (stringText s) ++ rest) :
    ∃ c', stringTail c.advance = .ok (s, c') ∧ c'.rest = rest := by
  rw [encodeChars_stringText, List.cons_append, List.append_assoc] at here
  exact stringTail_written s (Cursor.rest_advance here)

/-- What follows a number is no part of it. -/
def Ends (rest : List UInt8) : Prop :=
  ∀ b, rest.head? = some b → Cursor.isDigit b = false ∧
    b ≠ '.'.toUInt8 ∧ b ≠ 'e'.toUInt8 ∧ b ≠ 'E'.toUInt8

theorem Ends.peeks {c : Cursor} (h : Ends c.rest) :
    c.peeks '.' = false ∧ c.peeks 'e' = false ∧ c.peeks 'E' = false := by
  unfold Cursor.peeks Cursor.peek?
  cases first : c.rest.head? with
  | none => exact ⟨rfl, rfl, rfl⟩
  | some b =>
    obtain ⟨_, point, small, large⟩ := h b first
    simp [point, small, large]

theorem numberTail_ends {negative : Bool} {significand : Nat} {c : Cursor} (h : Ends c.rest) :
    numberTail negative significand c = .ok (wholeNumber negative significand, c) := by
  obtain ⟨point, small, large⟩ := h.peeks
  simp [numberTail, point, small, large]

theorem encodeChars_digits {chars : List Char} (h : ∀ ch ∈ chars, ch.isDigit = true) :
    encodeChars chars = chars.map Char.toUInt8 := by
  induction chars with
  | nil => rfl
  | cons ch rest ih =>
    have range := Char.isDigit_iff_toNat.mp (h ch List.mem_cons_self)
    have ascii : ch.toNat < 0x80 := Nat.lt_of_le_of_lt range.2 (by decide)
    rw [Utf8.encodeChars_cons_append, Utf8.encodeChar_of_ascii ascii,
      ih fun ch mem => h ch (List.mem_cons_of_mem _ mem)]
    rfl

theorem toUInt8_toNat_of_isDigit {ch : Char} (h : ch.isDigit = true) :
    ch.toUInt8.toNat = ch.toNat := by
  have range := Char.isDigit_iff_toNat.mp h
  have small : ch.toNat < 256 := Nat.lt_of_le_of_lt range.2 (by decide)
  exact Nat.mod_eq_of_lt small

theorem isDigit_toUInt8 {ch : Char} (h : ch.isDigit = true) : Cursor.isDigit ch.toUInt8 = true := by
  have range := Char.isDigit_iff_toNat.mp h
  have value := toUInt8_toNat_of_isDigit h
  rw [Cursor.isDigit, Bool.and_eq_true, decide_eq_true_eq, decide_eq_true_eq,
    UInt8.le_iff_toNat_le, UInt8.le_iff_toNat_le, value]
  exact range

theorem le_ofDigitChars (chars : List Char) (init : Nat) :
    init ≤ Nat.ofDigitChars 10 chars init := by
  induction chars generalizing init with
  | nil => rw [Nat.ofDigitChars_nil]
  | cons ch rest ih =>
    rw [Nat.ofDigitChars_cons]
    exact Nat.le_trans (by omega) (ih _)

/-- Digits are read to their end as long as their value fits. -/
theorem digits_written {chars : List Char} {significand : Nat} (count : Nat) {c : Cursor}
    {rest : List UInt8} (all : ∀ ch ∈ chars, ch.isDigit = true)
    (fits : Nat.ofDigitChars 10 chars significand ≤ largestWord) (ends : Ends rest)
    (here : c.rest = chars.map Char.toUInt8 ++ rest) :
    ∃ count' c', c'.rest = rest ∧ digits (chars.map Char.toUInt8 ++ rest) significand count c =
      (Nat.ofDigitChars 10 chars significand, count', c') := by
  induction chars generalizing significand count c with
  | nil =>
    refine ⟨count, c, here, ?_⟩
    cases rest with
    | nil => rfl
    | cons b more =>
      have other := (ends b rfl).1
      simp [digits, other]
  | cons ch chars ih =>
    have digit := all ch List.mem_cons_self
    have value : significand * 10 + (ch.toUInt8.toNat - 48) =
        10 * significand + (ch.toNat - '0'.toNat) := by
      rw [toUInt8_toNat_of_isDigit digit, Nat.mul_comm]
      rfl
    rw [Nat.ofDigitChars_cons] at fits
    have small := Nat.le_trans (le_ofDigitChars chars _) fits
    obtain ⟨count', c', after, onward⟩ := ih (count + 1)
      (fun ch mem => all ch (List.mem_cons_of_mem _ mem)) fits
      (Cursor.rest_step c ch.toUInt8 (chars.map Char.toUInt8 ++ rest))
    refine ⟨count', c', after, ?_⟩
    rw [List.map_cons, List.cons_append, digits]
    simp only [value, isDigit_toUInt8 digit, small, decide_true, Bool.and_self, if_true]
    rw [Nat.ofDigitChars_cons]
    exact onward

theorem head_toDigits {n : Nat} (h : 0 < n) : (Nat.toDigits 10 n).head? ≠ some '0' := by
  induction n using Nat.strongRecOn with
  | ind n ih =>
    by_cases small : n < 10
    · rw [Nat.toDigits_of_lt_base small]
      simp only [List.head?_cons, ne_eq, Option.some.injEq, Nat.digitChar_eq_zero]
      omega
    · rw [Nat.toDigits_of_base_le (by decide) (Nat.not_lt.mp small),
        List.head?_append_of_ne_nil _ Nat.toDigits_ne_nil]
      exact ih (n / 10) (by omega) (by omega)

/-- Every whole number that fits comes back, with the sign that was read before it. -/
theorem number_written (negative : Bool) {n : Nat} (fits : n ≤ largestWord) {c : Cursor}
    {rest : List UInt8} (ends : Ends rest)
    (here : c.rest = encodeChars (Nat.toDigits 10 n) ++ rest) :
    ∃ c', number negative c = .ok (wholeNumber negative n, c') ∧ c'.rest = rest := by
  have all : ∀ ch ∈ Nat.toDigits 10 n, ch.isDigit = true := fun ch mem =>
    Nat.isDigit_of_mem_toDigits (by decide) (by decide) mem
  have value : Nat.ofDigitChars 10 (Nat.toDigits 10 n) 0 = n := Nat.ofDigitChars_ten_toDigits
  obtain ⟨ch, more, shape⟩ := List.exists_cons_of_ne_nil (Nat.toDigits_ne_nil (n := n) (b := 10))
  rw [encodeChars_digits all] at here
  rw [shape] at all value here
  rw [List.map_cons, List.cons_append] at here
  have digit := all ch List.mem_cons_self
  unfold number
  simp only [here]
  split
  · next zero =>
    have none : n = 0 := by
      by_contra some
      refine head_toDigits (Nat.pos_of_ne_zero some) ?_
      have same : ch.toNat = '0'.toNat := by
        rw [← toUInt8_toNat_of_isDigit digit, zero]
        rfl
      rw [shape, Char.toNat_inj.mp same]
      rfl
    subst none
    obtain rfl : more = [] := by
      rw [Nat.toDigits_zero, List.cons.injEq] at shape
      exact shape.2.symm
    refine ⟨c.step ch.toUInt8 rest, ?_, Cursor.rest_step c _ _⟩
    have tail : numberTail negative 0 (c.step ch.toUInt8 rest) =
        .ok (wholeNumber negative 0, c.step ch.toUInt8 rest) :=
      numberTail_ends (by rwa [Cursor.rest_step])
    cases rest with
    | nil => exact tail
    | cons b others =>
      have other := (ends b rfl).1
      simpa [other] using tail
  · rw [if_pos (isDigit_toUInt8 digit)]
    have start : ch.toUInt8.toNat - 48 = 10 * 0 + (ch.toNat - '0'.toNat) := by
      rw [toUInt8_toNat_of_isDigit digit, Nat.mul_zero, Nat.zero_add]
      rfl
    rw [Nat.ofDigitChars_cons, ← start] at value
    obtain ⟨count, c', after, read⟩ := digits_written 0
      (fun ch mem => all ch (List.mem_cons_of_mem _ mem)) (value.symm ▸ fits) ends
      (Cursor.rest_step c ch.toUInt8 (more.map Char.toUInt8 ++ rest))
    refine ⟨c', ?_, after⟩
    have tail : numberTail negative n c' = .ok (wholeNumber negative n, c') :=
      numberTail_ends (by rwa [after])
    rw [read, value]
    simp only [after]
    cases rest with
    | nil => exact tail
    | cons b others =>
      have other := (ends b rfl).1
      simpa [other] using tail

end ModuleSystem.Json
