import Mathlib
import ModuleSystem.Json.Reader

/-! A reader goes on from place to place in one text and never gives back bytes that it has read. A
value takes at least one byte for itself, for each of its items and for the brackets around them. So
a text cannot hold more values than it has bytes. -/

namespace ModuleSystem

theorem Except.of_bind_ok {ε α β : Type} {x : Except ε α} {f : α → Except ε β} {b : β}
    (h : (x >>= f) = .ok b) : ∃ a, x = .ok a ∧ f a = .ok b := by
  cases x with
  | error e => cases h
  | ok a => exact ⟨a, rfl, h⟩

namespace Json

/-- The bytes that are still to be read. -/
abbrev Cursor.left (c : Cursor) : Nat := c.rest.length

namespace Cursor

@[simp] theorem rest_step (c : Cursor) (b : UInt8) (rest : List UInt8) :
    (c.step b rest).rest = rest := by
  unfold step
  split <;> rfl

/-- The second place lies behind the first one in the same text, or is the same. -/
inductive Onward : Cursor → Cursor → Prop
  | refl (c : Cursor) : Onward c c
  | step {c c' : Cursor} {b : UInt8} {rest : List UInt8} (here : c.rest = b :: rest)
      (more : Onward (c.step b rest) c') : Onward c c'

/-- The same, where at least the first byte of a character lies between. -/
def Beyond (c c' : Cursor) : Prop :=
  ∃ b rest, c.rest = b :: rest ∧ beginsChar b = true ∧ Onward (c.step b rest) c'

theorem Onward.trans {c₁ c₂ c₃ : Cursor} (h : Onward c₁ c₂) (h' : Onward c₂ c₃) :
    Onward c₁ c₃ := by
  induction h with
  | refl => exact h'
  | step here _ ih => exact .step here (ih h')

theorem Onward.left_le {c c' : Cursor} (h : Onward c c') : c'.left ≤ c.left := by
  induction h with
  | refl => exact Nat.le_refl _
  | step here _ ih =>
    simp only [left, rest_step, here, List.length_cons] at ih ⊢
    omega

namespace Beyond

variable {c c₁ c' : Cursor}

theorem onward (h : Beyond c c') : Onward c c' := by
  obtain ⟨b, rest, here, _, more⟩ := h
  exact .step here more

theorem left_lt (h : Beyond c c') : c'.left < c.left := by
  obtain ⟨b, rest, here, _, more⟩ := h
  have := more.left_le
  simp only [left, rest_step, here, List.length_cons] at this ⊢
  omega

theorem trans (h : Beyond c c₁) (h' : Onward c₁ c') : Beyond c c' := by
  obtain ⟨b, rest, here, first, more⟩ := h
  exact ⟨b, rest, here, first, more.trans h'⟩

end Beyond

theorem onward_advance (c : Cursor) : Onward c c.advance := by
  unfold advance
  split
  · exact .refl c
  · next here => exact .step here (.refl _)

theorem onward_skip (p : UInt8 → Bool) {bytes : List UInt8} {c : Cursor} (h : c.rest = bytes) :
    Onward c (skip p bytes c) := by
  induction bytes generalizing c with
  | nil => exact .refl c
  | cons b rest ih =>
    rw [skip]
    split
    · exact .step h (ih (rest_step c b rest))
    · exact .refl c

theorem onward_skipSpaces (c : Cursor) : Onward c c.skipSpaces := onward_skip _ rfl

theorem onward_skipDigits (c : Cursor) : Onward c c.skipDigits := onward_skip _ rfl

theorem beginsChar_of_isDigit {b : UInt8} (h : isDigit b = true) : beginsChar b = true := by
  have le : b ≤ '9'.toUInt8 := by simpa using (Bool.and_eq_true_iff.mp h).2
  have low : b < 0x80 := UInt8.lt_of_le_of_lt le (by decide)
  simp [beginsChar, low]

end Cursor

open Cursor (Onward Beyond)

theorem stringBytes_onward {bytes : List UInt8} {state : StringState} {read : List UInt8}
    {c c' : Cursor} {out : List UInt8} (here : c.rest = bytes)
    (h : stringBytes bytes state read c = .ok (out, c')) : Onward c c' := by
  induction bytes generalizing state read c with
  | nil => cases h
  | cons b rest ih =>
    rw [stringBytes] at h
    split at h
    · cases h
      exact .refl _
    · exact .step here (ih (Cursor.rest_step c b rest) h)
    · cases h

theorem stringTail_onward {c c' : Cursor} {s : String} (h : stringTail c = .ok (s, c')) :
    Onward c c' := by
  unfold stringTail at h
  split at h
  · cases h
  · next bytes c₁ read =>
    split at h
    · cases h
      exact (stringBytes_onward rfl read).trans c₁.onward_advance
    · cases h

theorem wordTail_onward {chars : List Char} {c c' : Cursor} (h : wordTail chars c = .ok c') :
    Onward c c' := by
  induction chars generalizing c with
  | nil =>
    cases h
    exact .refl _
  | cons ch more ih =>
    rw [wordTail] at h
    split at h
    · cases h
    · next b rest here =>
      split at h
      · exact .step here (ih h)
      · cases h

theorem digits_onward {bytes : List UInt8} {significand count : Nat} {c : Cursor}
    (here : c.rest = bytes) : Onward c (digits bytes significand count c).2.2 := by
  induction bytes generalizing significand count c with
  | nil => exact .refl c
  | cons b rest ih =>
    rw [digits]
    split
    · exact .step here (ih (Cursor.rest_step c b rest))
    · exact .refl c

theorem countDigits_onward {bytes : List UInt8} {count : Nat} {c : Cursor} (here : c.rest = bytes) :
    Onward c (countDigits bytes count c).2 := by
  induction bytes generalizing count c with
  | nil => exact .refl c
  | cons b rest ih =>
    rw [countDigits]
    split
    · exact .step here (ih (Cursor.rest_step c b rest))
    · exact .refl c

theorem exponentDigits_onward {bytes : List UInt8} {e : Nat} {c : Cursor} (here : c.rest = bytes) :
    Onward c (exponentDigits bytes e c).2 := by
  induction bytes generalizing e c with
  | nil => exact .refl c
  | cons b rest ih =>
    simp only [exponentDigits]
    split
    · split
      · exact .step here (ih (Cursor.rest_step c b rest))
      · exact .step here (.refl _)
    · exact .refl c

theorem ofParts_onward {negative : Bool} {significand : Nat} {e : Int} {c c' : Cursor} {n : Number}
    (h : ofParts negative significand e c = .ok (n, c')) : Onward c c' := by
  unfold ofParts at h
  split at h <;> cases h
  exact .refl c

theorem exponentPart_onward {negative : Bool} {significand : Nat} {e : Int} {c c' : Cursor}
    {n : Number} (h : exponentPart negative significand e c = .ok (n, c')) : Onward c c' := by
  simp only [exponentPart] at h
  -- The place after the letter and a sign.
  generalize sign : (if (c.advance.peeks '-' || c.advance.peeks '+') = true then c.advance.advance
    else c.advance) = d at h
  have after : Onward c d := by
    rw [← sign]
    split
    · exact c.onward_advance.trans c.advance.onward_advance
    · exact c.onward_advance
  refine after.trans ?_
  split at h
  · cases h
  · next b rest here =>
    refine .step here ?_
    split at h
    · have digits := exponentDigits_onward (e := b.toNat - 48) (c := d.step b rest) rfl
      split at h
      · next n c₁ read =>
        simp only [read] at digits
        exact digits.trans (ofParts_onward h)
      · next c₁ read =>
        simp only [read] at digits
        split at h
        · cases h
        · cases h
          exact digits.trans c₁.onward_skipDigits
    · cases h

theorem exponentOrEnd_onward {negative : Bool} {significand : Nat} {e : Int} {c c' : Cursor}
    {n : Number} (h : exponentOrEnd negative significand e c = .ok (n, c')) : Onward c c' := by
  unfold exponentOrEnd at h
  split at h
  · exact exponentPart_onward h
  · exact ofParts_onward h

theorem fractionPart_onward {negative : Bool} {significand : Nat} {e : Int} {c c' : Cursor}
    {n : Number} (h : fractionPart negative significand e c = .ok (n, c')) : Onward c c' := by
  simp only [fractionPart] at h
  have read := @digits_onward _ significand 0 c.advance rfl
  generalize digits c.advance.rest significand 0 c.advance = d at h read
  obtain ⟨value, count, c₁⟩ := d
  have so_far : Onward c c₁ := c.onward_advance.trans read
  simp only at h
  split at h
  · split at h
    · exact so_far.trans (c₁.onward_skipDigits.trans (exponentOrEnd_onward h))
    · split at h
      · cases h
      · exact so_far.trans (exponentOrEnd_onward h)
  · split at h
    · cases h
    · exact so_far.trans (exponentOrEnd_onward h)

theorem numberTail_onward {negative : Bool} {significand : Nat} {c c' : Cursor} {n : Number}
    (h : numberTail negative significand c = .ok (n, c')) : Onward c c' := by
  unfold numberTail at h
  split at h
  · exact fractionPart_onward h
  · split at h
    · exact exponentPart_onward h
    · cases h
      exact .refl c

/-- A number has a digit at least. -/
theorem number_beyond {negative : Bool} {c c' : Cursor} {n : Number}
    (h : number negative c = .ok (n, c')) : Beyond c c' := by
  unfold number at h
  split at h
  · cases h
  · next b rest here =>
    simp only at h
    split at h
    · next zero =>
      refine ⟨b, rest, here, zero ▸ by decide, ?_⟩
      split at h
      · split at h
        · cases h
        · exact numberTail_onward h
      · exact numberTail_onward h
    · split at h
      · next digit =>
        refine ⟨b, rest, here, Cursor.beginsChar_of_isDigit digit, ?_⟩
        have read := @digits_onward rest (b.toNat - 48) 0 (c.step b rest) (Cursor.rest_step c b rest)
        generalize digits rest (b.toNat - 48) 0 (c.step b rest) = d at h read
        obtain ⟨value, count, c₁⟩ := d
        refine read.trans ?_
        simp only at h
        split at h
        · split at h
          · have counted := @countDigits_onward _ 0 c₁ rfl
            generalize countDigits c₁.rest 0 c₁ = d at h counted
            obtain ⟨dropped, c₂⟩ := d
            refine counted.trans ?_
            simp only at h
            split at h
            · exact fractionPart_onward h
            · exact exponentOrEnd_onward h
          · exact numberTail_onward h
        · exact numberTail_onward h
      · cases h

theorem moreItems_onward {first more : Bool} {c c' : Cursor}
    (h : moreItems first c = .ok (more, c')) : Onward c c' := by
  have spaces := c.onward_skipSpaces
  simp only [moreItems] at h
  split at h
  · cases h
  · split at h
    · cases h
      exact spaces
    · split at h
      · cases h
        exact spaces
      · split at h
        · have comma := c.skipSpaces.onward_advance
          have next := c.skipSpaces.advance.onward_skipSpaces
          split at h
          · cases h
          · split at h
            · cases h
            · cases h
              exact spaces.trans (comma.trans next)
        · cases h

theorem nextName_onward {first : Bool} {name : Option String} {c c' : Cursor}
    (h : nextName first c = .ok (name, c')) : Onward c c' := by
  have spaces := c.onward_skipSpaces
  have quoted : ∀ {d : Cursor} {name : Option String} {c' : Cursor},
      ((stringTail d.advance).bind fun read => .ok (some read.1, read.2)) = .ok (name, c') →
        Onward d c' := by
    intro d name c' h
    obtain ⟨⟨text, c₁⟩, read, rest⟩ := Except.of_bind_ok h
    cases rest
    exact d.onward_advance.trans (stringTail_onward read)
  simp only [nextName] at h
  split at h
  · cases h
  · split at h
    · cases h
      exact spaces
    · split at h
      · split at h
        · exact spaces.trans (quoted h)
        · cases h
      · split at h
        · have comma := c.skipSpaces.onward_advance
          have next := c.skipSpaces.advance.onward_skipSpaces
          split at h
          · cases h
          · split at h
            · exact spaces.trans (comma.trans (next.trans (quoted h)))
            · split at h <;> cases h
        · cases h

theorem colon_onward {c c' : Cursor} (h : colon c = .ok c') : Onward c c' := by
  simp only [colon] at h
  split at h
  · cases h
  · split at h
    · cases h
      exact c.onward_skipSpaces.trans (Cursor.onward_advance _)
    · cases h

/-- The bytes that a value takes at least: one for itself and, in an array, one for each item. -/
def weight : Json → Nat
  | .array items => 1 + items.length
  | _ => 1

theorem weight_pos (j : Json) : 1 ≤ j.weight := by
  unfold weight
  split <;> omega

/-- What reading a value does: it begins behind the spaces, and takes its weight in bytes. -/
structure Takes (c : Cursor) (j : Json) (c' : Cursor) : Prop where
  beyond : Beyond c.skipSpaces c'
  weight : c'.left + j.weight ≤ c.left

theorem Takes.onward {c c' : Cursor} {j : Json} (h : Takes c j c') : Onward c c' :=
  c.onward_skipSpaces.trans h.beyond.onward

/-- A value that has no items only needs to begin. -/
theorem Takes.of_beyond {c c' : Cursor} {j : Json} (h : Beyond c.skipSpaces c')
    (light : j.weight = 1) : Takes c j c' := by
  have := h.left_lt
  have := c.onward_skipSpaces.left_le
  exact ⟨h, by omega⟩

/-- What one more unit of fuel adds to the reading of values, given that of their parts. -/
theorem value_takes_step {fuel depth : Nat} {c c' : Cursor} {j : Json}
    (items : ∀ {depth first read read'} {c c' : Cursor},
      items fuel depth first read c = .ok (read', c') →
        Onward c c' ∧ c'.left + read'.length ≤ c.left + read.length)
    (members : ∀ {depth first read read'} {c c' : Cursor},
      members fuel depth first read c = .ok (read', c') → Onward c c')
    (h : value (fuel + 1) depth c = .ok (j, c')) : Takes c j c' := by
  simp only [value] at h
  split at h
  · cases h
  · next b rest here =>
    have begins : ∀ ch : Char, Cursor.beginsChar ch.toUInt8 = true → b = ch.toUInt8 →
        ∀ {c'}, Onward (c.skipSpaces.step b rest) c' → Beyond c.skipSpaces c' :=
      fun ch first same c' more => ⟨b, rest, here, same ▸ first, more⟩
    split at h
    · next word =>
      obtain ⟨_, read, done⟩ := Except.of_bind_ok h
      cases done
      exact .of_beyond (begins 'n' (by decide) word (wordTail_onward read)) rfl
    split at h
    · next word =>
      obtain ⟨_, read, done⟩ := Except.of_bind_ok h
      cases done
      exact .of_beyond (begins 't' (by decide) word (wordTail_onward read)) rfl
    split at h
    · next word =>
      obtain ⟨_, read, done⟩ := Except.of_bind_ok h
      cases done
      exact .of_beyond (begins 'f' (by decide) word (wordTail_onward read)) rfl
    split at h
    · next minus =>
      obtain ⟨⟨n, _⟩, read, done⟩ := Except.of_bind_ok h
      cases done
      refine .of_beyond (begins '-' (by decide) minus (number_beyond read).onward) ?_
      cases n <;> rfl
    split at h
    · obtain ⟨⟨n, _⟩, read, done⟩ := Except.of_bind_ok h
      cases done
      refine .of_beyond (number_beyond read) ?_
      cases n <;> rfl
    split at h
    · next quote =>
      obtain ⟨⟨s, _⟩, read, done⟩ := Except.of_bind_ok h
      cases done
      exact .of_beyond (begins '\x22' (by decide) quote (stringTail_onward read)) rfl
    split at h
    · next bracket =>
      split at h
      · cases h
      · obtain ⟨⟨read, _⟩, done, last⟩ := Except.of_bind_ok h
        cases last
        obtain ⟨onward, fewer⟩ := items done
        refine ⟨begins '[' (by decide) bracket onward, ?_⟩
        have spaces := c.onward_skipSpaces.left_le
        simp only [weight, Cursor.left, Cursor.rest_step, here, List.length_reverse,
          List.length_nil, List.length_cons] at fewer spaces ⊢
        omega
    split at h
    · next brace =>
      split at h
      · cases h
      · obtain ⟨⟨read, _⟩, done, last⟩ := Except.of_bind_ok h
        cases last
        exact .of_beyond (begins '\x7b' (by decide) brace (members done)) rfl
    · cases h

/-- The readers of values, items and fields call one another, each with less fuel. -/
theorem readers_onward (fuel : Nat) :
    (∀ {depth} {c c' : Cursor} {j : Json}, value fuel depth c = .ok (j, c') → Takes c j c') ∧
    (∀ {depth first read read'} {c c' : Cursor},
      items fuel depth first read c = .ok (read', c') →
        Onward c c' ∧ c'.left + read'.length ≤ c.left + read.length) ∧
    (∀ {depth first read read'} {c c' : Cursor},
      members fuel depth first read c = .ok (read', c') → Onward c c') := by
  induction fuel with
  | zero => refine ⟨fun h => ?_, fun h => ?_, fun h => ?_⟩ <;> cases h
  | succ fuel ih =>
    obtain ⟨value, items, members⟩ := ih
    refine ⟨fun h => value_takes_step items members h, fun h => ?_, fun h => ?_⟩
    · rw [Json.items] at h
      obtain ⟨⟨more, c₁⟩, asked, h⟩ := Except.of_bind_ok h
      have ahead := moreItems_onward asked
      have := ahead.left_le
      simp only at h
      split at h
      · obtain ⟨⟨item, c₂⟩, read, h⟩ := Except.of_bind_ok h
        have taken := value read
        obtain ⟨onward, fewer⟩ := items h
        refine ⟨ahead.trans (taken.onward.trans onward), ?_⟩
        have := taken.weight
        have := item.weight_pos
        simp only [List.length_cons] at *
        omega
      · cases h
        have last := c₁.onward_advance
        refine ⟨ahead.trans last, ?_⟩
        have := last.left_le
        omega
    · rw [Json.members] at h
      obtain ⟨⟨name, c₁⟩, asked, h⟩ := Except.of_bind_ok h
      have ahead := nextName_onward asked
      cases name with
      | none =>
        cases h
        exact ahead.trans c₁.onward_advance
      | some name =>
        obtain ⟨c₂, after, h⟩ := Except.of_bind_ok h
        obtain ⟨⟨item, c₃⟩, read, h⟩ := Except.of_bind_ok h
        exact ahead.trans ((colon_onward after).trans ((value read).onward.trans (members h)))

theorem valueAt_takes {c c' : Cursor} {j : Json} (h : valueAt c = .ok (j, c')) : Takes c j c' :=
  (readers_onward _).1 h

def totalWeight (forms : List (Position × Json)) : Nat := (forms.map (·.2.weight)).sum

theorem streamFrom_weight {fuel : Nat} {c : Cursor} {forms : List (Position × Json)}
    (h : streamFrom fuel c = .ok forms) : totalWeight forms ≤ c.left := by
  induction fuel generalizing c forms with
  | zero =>
    cases h
    exact Nat.zero_le _
  | succ fuel ih =>
    have spaces := c.onward_skipSpaces.left_le
    simp only [streamFrom] at h
    split at h
    · cases h
      exact Nat.zero_le _
    · obtain ⟨⟨j, after⟩, read, h⟩ := Except.of_bind_ok h
      obtain ⟨_, _, h⟩ := Except.of_bind_ok h
      obtain ⟨rest, onward, h⟩ := Except.of_bind_ok h
      cases h
      have := (valueAt_takes read).weight
      have := ih onward
      simp only [totalWeight, List.map_cons, List.sum_cons] at *
      omega

theorem stream_weight {text : String} {forms : List (Position × Json)}
    (h : stream text = .ok forms) : totalWeight forms ≤ (Utf8.encode text).length :=
  streamFrom_weight h

end Json
end ModuleSystem
