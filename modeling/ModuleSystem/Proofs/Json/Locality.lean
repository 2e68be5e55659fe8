import ModuleSystem.Proofs.Json.Positions
import ModuleSystem.Proofs.Json.Values

/-! A reader that takes some bytes takes the same bytes, and gives the same, wherever they come
next: what was before them does not count, and of what follows them no more than the next byte
counts. -/

namespace ModuleSystem.Json

namespace Cursor

/-- The place behind some bytes, which come next. -/
def past : List UInt8 → Cursor → Cursor
  | [], c => c
  | _ :: w, c => past w c.advance

variable {c d : Cursor} {w w' x : List UInt8} {b : UInt8}

theorem past_append (w w' : List UInt8) (c : Cursor) : c.past (w ++ w') = (c.past w).past w' := by
  induction w generalizing c with
  | nil => rfl
  | cons b w ih => exact ih c.advance

theorem rest_past (here : c.rest = w ++ x) : (c.past w).rest = x := by
  induction w generalizing c with
  | nil => exact here
  | cons b w ih => exact ih (rest_advance here)

theorem past_cons (here : c.rest = b :: x) : c.past (b :: w) = (c.step b x).past w := by
  rw [past, advance_of_rest here]

theorem peeks_congr (same : d.rest.head? = c.rest.head?) (ch : Char) : d.peeks ch = c.peeks ch := by
  rw [peeks, peek?, same, peeks, peek?]

variable {p : UInt8 → Bool}

/-- The bytes of the kind that come next, and what stops them. -/
theorem exists_run (p : UInt8 → Bool) (bytes : List UInt8) :
    ∃ w x, bytes = w ++ x ∧ (∀ b ∈ w, p b = true) ∧ ∀ b, x.head? = some b → p b = false := by
  refine ⟨_, _, List.takeWhile_append_dropWhile.symm, fun b mem => List.mem_takeWhile_imp mem, ?_⟩
  intro b head
  have stops := List.head?_dropWhile_not p bytes
  rw [head] at stops
  simpa using stops

theorem skip_past (here : c.rest = w ++ x) (all : ∀ b ∈ w, p b = true)
    (stops : ∀ b, x.head? = some b → p b = false) : skip p c.rest c = c.past w := by
  rw [here]
  induction w generalizing c with
  | nil =>
    cases x with
    | nil => rfl
    | cons b rest =>
      rw [List.nil_append, skip, if_neg (by rw [stops b rfl]; exact Bool.false_ne_true)]
      rfl
  | cons b w ih =>
    rw [List.cons_append, skip, if_pos (all b List.mem_cons_self), past_cons here]
    exact ih (rest_step c b _) fun b mem => all b (List.mem_cons_of_mem _ mem)

theorem skipSpaces_past (here : c.rest = w ++ x) (blank : Spaces w)
    (stops : ∀ b, x.head? = some b → isSpace b = false) : c.skipSpaces = c.past w :=
  skip_past here blank stops

end Cursor

open Cursor (past_append rest_past past_cons peeks_congr)

/-- `x` may follow in the place of `r`: it begins alike, or it cannot be taken for more of a number. -/
def Follows (r x : List UInt8) : Prop := x.head? = r.head? ∨ Ends x

theorem Follows.append {r x : List UInt8} (h : Follows r x) (w : List UInt8) :
    Follows (w ++ r) (w ++ x) := by
  cases w with
  | nil => exact h
  | cons b w => exact .inl rfl

theorem Follows.digit {r x : List UInt8} (h : Follows r x)
    (none : ∀ b, r.head? = some b → Cursor.isDigit b = false) :
    ∀ b, x.head? = some b → Cursor.isDigit b = false := by
  intro b head
  obtain same | ends := h
  · exact none b (same ▸ head)
  · exact (ends b head).1

section Peeks

variable {c d : Cursor}

theorem Follows.no_exponent (h : Follows c.rest d.rest)
    (none : (c.peeks 'e' || c.peeks 'E') = false) : (d.peeks 'e' || d.peeks 'E') = false := by
  obtain same | ends := h
  · rwa [peeks_congr same, peeks_congr same]
  · obtain ⟨_, small, large⟩ := ends.peeks
    rw [small, large]
    rfl

theorem Follows.no_point (h : Follows c.rest d.rest) (none : c.peeks '.' = false) :
    d.peeks '.' = false := by
  obtain same | ends := h
  · rwa [peeks_congr same]
  · exact ends.peeks.1

end Peeks

/-- The reader takes some bytes at `c`; where they come next, it takes them and gives the same, if
what follows is fit to follow. -/
def Local {α : Type} (fit : List UInt8 → List UInt8 → Prop) (read : Reader α) (c : Cursor) (a : α)
    (c' : Cursor) : Prop :=
  ∃ w, c.rest = w ++ c'.rest ∧
    ∀ d x, d.rest = w ++ x → fit c'.rest x → read d = .ok (a, d.past w)

/-! ### Words and strings -/

theorem wordTail_local {chars : List Char} {c c' : Cursor} (h : wordTail chars c = .ok c') :
    ∃ w, c.rest = w ++ c'.rest ∧
      ∀ d x, d.rest = w ++ x → wordTail chars d = .ok (d.past w) := by
  induction chars generalizing c with
  | nil =>
    cases h
    exact ⟨[], rfl, fun _ _ _ => rfl⟩
  | cons ch more ih =>
    rw [wordTail] at h
    split at h
    · cases h
    · next b rest here =>
      split at h
      · next same =>
        obtain ⟨w, split, onward⟩ := ih h
        rw [Cursor.rest_step] at split
        refine ⟨b :: w, by rw [here, split, List.cons_append], ?_⟩
        intro d x ahead
        rw [wordTail, ahead, past_cons ahead]
        dsimp only [List.cons_append]
        rw [if_pos same]
        exact onward _ x (Cursor.rest_step d b _)
      · cases h

/-- Only a quote ends a string. -/
theorem quote_of_finished {b : UInt8} {state : StringState} (h : stringStep b state = .finished) :
    b = '\x22'.toUInt8 := by
  cases state <;> simp only [stringStep, unitStep, pairStep] at h <;> repeat' split at h
  all_goals first | assumption | cases h

theorem stringBytes_local {bytes : List UInt8} {state : StringState} {read out : List UInt8}
    {c c' : Cursor} (here : c.rest = bytes) (h : stringBytes bytes state read c = .ok (out, c')) :
    ∃ w r, c.rest = w ++ '\x22'.toUInt8 :: r ∧ c'.rest = '\x22'.toUInt8 :: r ∧
      ∀ d x, d.rest = w ++ '\x22'.toUInt8 :: x →
        stringBytes d.rest state read d = .ok (out, d.past w) := by
  induction bytes generalizing state read c with
  | nil => cases h
  | cons b rest ih =>
    rw [stringBytes] at h
    split at h
    · next finished =>
      cases h
      have quote := quote_of_finished finished
      refine ⟨[], rest, by rw [here, quote]; rfl, by rw [here, quote], ?_⟩
      intro d x ahead
      rw [ahead, List.nil_append, stringBytes, ← quote, finished]
      rfl
    · next next added one =>
      obtain ⟨w, r, split, after, onward⟩ := ih (Cursor.rest_step c b rest) h
      rw [Cursor.rest_step] at split
      refine ⟨b :: w, r, by rw [here, split, List.cons_append], after, ?_⟩
      intro d x ahead
      have further := onward _ x (Cursor.rest_step d b _)
      rw [Cursor.rest_step] at further
      rw [past_cons ahead, ahead, List.cons_append, stringBytes, one]
      exact further
    · cases h

/-- A string ends with its quote, and nothing that follows it counts. -/
theorem stringTail_local {s : String} {c c' : Cursor} (h : stringTail c = .ok (s, c')) :
    ∃ w, c.rest = w ++ '\x22'.toUInt8 :: c'.rest ∧
      ∀ d x, d.rest = w ++ '\x22'.toUInt8 :: x →
        stringTail d = .ok (s, d.past (w ++ ['\x22'.toUInt8])) := by
  unfold stringTail at h
  split at h
  · cases h
  · next bytes c₁ read =>
    split at h
    · next text decoded =>
      cases h
      obtain ⟨w, r, split, quote, onward⟩ := stringBytes_local rfl read
      rw [Cursor.rest_advance quote]
      refine ⟨w, split, ?_⟩
      intro d x ahead
      rw [stringTail, onward d x ahead]
      simp only [decoded, past_append]
      rfl
    · cases h

/-! ### Numbers -/

theorem digits_stop {x : List UInt8} (stop : ∀ b, x.head? = some b → Cursor.isDigit b = false)
    (significand count : Nat) (d : Cursor) : digits x significand count d = (significand, count, d) := by
  cases x with
  | nil => rfl
  | cons b more =>
    rw [digits, stop b rfl]
    rfl

theorem digits_local {bytes : List UInt8} {significand count : Nat} {c : Cursor}
    (here : c.rest = bytes) {significand' count' : Nat} {c' : Cursor}
    (h : digits bytes significand count c = (significand', count', c')) :
    ∃ w, c.rest = w ++ c'.rest ∧ ∀ d x, d.rest = w ++ x → Follows c'.rest x →
      digits d.rest significand count d = (significand', count', d.past w) := by
  induction bytes generalizing significand count c with
  | nil =>
    cases h
    refine ⟨[], rfl, ?_⟩
    intro d x ahead follows
    have none : ∀ b, c'.rest.head? = some b → Cursor.isDigit b = false := by
      rw [here]
      exact nofun
    rw [ahead, List.nil_append, digits_stop (follows.digit none)]
    rfl
  | cons b rest ih =>
    simp only [digits] at h
    split at h
    · next more =>
      obtain ⟨w, split, onward⟩ := ih (Cursor.rest_step c b rest) h
      rw [Cursor.rest_step] at split
      refine ⟨b :: w, by rw [here, split, List.cons_append], ?_⟩
      intro d x ahead follows
      have further := onward _ x (Cursor.rest_step d b _) follows
      rw [Cursor.rest_step] at further
      rw [past_cons ahead, ahead, List.cons_append]
      simp only [digits]
      rw [if_pos more]
      exact further
    · next stop =>
      cases h
      refine ⟨[], rfl, ?_⟩
      intro d x ahead follows
      rw [ahead, List.nil_append]
      obtain same | ends := follows
      · -- The same digit follows, and does not fit either.
        obtain ⟨more, rfl⟩ : ∃ more, x = b :: more := by
          rw [here] at same
          exact List.head?_eq_some_iff.mp same
        simp only [digits]
        rw [if_neg stop]
        rfl
      · rw [digits_stop fun b head => (ends b head).1]
        rfl

theorem countDigits_past {c : Cursor} {w x : List UInt8} (here : c.rest = w ++ x)
    (all : ∀ b ∈ w, Cursor.isDigit b = true)
    (stops : ∀ b, x.head? = some b → Cursor.isDigit b = false) (count : Nat) :
    countDigits c.rest count c = (count + w.length, c.past w) := by
  rw [here]
  induction w generalizing count c with
  | nil =>
    cases x with
    | nil => rfl
    | cons b rest =>
      rw [List.nil_append, countDigits, stops b rfl]
      rfl
  | cons b w ih =>
    rw [List.cons_append, countDigits, if_pos (all b List.mem_cons_self), past_cons here,
      ih (Cursor.rest_step c b _) (fun b mem => all b (List.mem_cons_of_mem _ mem)),
      List.length_cons, Nat.add_assoc, Nat.add_comm 1]
    rfl

theorem exponentDigits_local {bytes : List UInt8} {e : Nat} {c : Cursor} (here : c.rest = bytes)
    {n : Option Nat} {c' : Cursor} (h : exponentDigits bytes e c = (n, c')) :
    ∃ w, c.rest = w ++ c'.rest ∧ ∀ d x, d.rest = w ++ x → Follows c'.rest x →
      exponentDigits d.rest e d = (n, d.past w) := by
  have stop : ∀ {x : List UInt8}, (∀ b, x.head? = some b → Cursor.isDigit b = false) →
      ∀ e d, exponentDigits x e d = (some e, d) := by
    intro x stop e d
    cases x with
    | nil => rfl
    | cons b more =>
      rw [exponentDigits, stop b rfl]
      rfl
  have last : ∀ {c : Cursor} {e : Nat}, (∀ b, c.rest.head? = some b → Cursor.isDigit b = false) →
      ∃ w, c.rest = w ++ c.rest ∧ ∀ d x, d.rest = w ++ x → Follows c.rest x →
        exponentDigits d.rest e d = (some e, d.past w) := by
    intro c e none
    refine ⟨[], rfl, ?_⟩
    intro d x ahead follows
    rw [ahead, List.nil_append, stop (follows.digit none)]
    rfl
  induction bytes generalizing e c with
  | nil =>
    cases h
    apply last
    rw [here]
    rintro _ ⟨⟩
  | cons b rest ih =>
    rw [exponentDigits] at h
    dsimp only at h
    split at h
    · next digit =>
      split at h
      · next fits =>
        obtain ⟨w, split, onward⟩ := ih (Cursor.rest_step c b rest) h
        rw [Cursor.rest_step] at split
        refine ⟨b :: w, by rw [here, split, List.cons_append], ?_⟩
        intro d x ahead follows
        have further := onward _ x (Cursor.rest_step d b _) follows
        rw [Cursor.rest_step] at further
        rw [past_cons ahead, ahead, List.cons_append, exponentDigits]
        dsimp only
        rw [if_pos digit, if_pos fits]
        exact further
      · next large =>
        cases h
        refine ⟨[b], by rw [here, Cursor.rest_step]; rfl, ?_⟩
        intro d x ahead _
        rw [past_cons ahead, ahead, List.singleton_append, exponentDigits]
        dsimp only
        rw [if_pos digit, if_neg large]
        rfl
    · next other =>
      cases h
      apply last
      rw [here]
      intro b' head
      cases head
      exact Bool.eq_false_iff.mpr other

section Parts

variable {negative : Bool} {significand : Nat} {e : Int} {c c' : Cursor} {n : Number}

/-- Scaling moves nowhere. -/
theorem ofParts_local (h : ofParts negative significand e c = .ok (n, c')) :
    c = c' ∧ ∀ d, ofParts negative significand e d = .ok (n, d) := by
  unfold ofParts at h ⊢
  split at h
  · next found =>
    cases h
    exact ⟨rfl, fun _ => rfl⟩
  · cases h

/-- An exponent after its letter and its sign. -/
def exponentFrom (negative down : Bool) (significand : Nat) (e : Int) : Reader Number := fun c =>
  match c.rest with
  | [] => .error (c.faultAfter .eofValue)
  | b :: rest =>
    let c := c.step b rest
    if Cursor.isDigit b then
      match exponentDigits c.rest (b.toNat - 48) c with
      | (some n, c) =>
        ofParts negative significand (clampExponent (if down then e - n else e + n)) c
      | (none, c) =>
        if significand ≠ 0 && !down then .error (c.faultAfter .numberOutOfRange)
        else .ok (.float (signed negative 0), c.skipDigits)
    else .error (c.faultAfter .invalidNumber)

theorem exponentPart_eq (negative : Bool) (significand : Nat) (e : Int) (c : Cursor) :
    exponentPart negative significand e c =
      exponentFrom negative (c.advance.peeks '-') significand e
        (if c.advance.peeks '-' || c.advance.peeks '+' then c.advance.advance else c.advance) := rfl

theorem exponentFrom_local {down : Bool}
    (h : exponentFrom negative down significand e c = .ok (n, c')) :
    ∃ b w, c.rest = b :: (w ++ c'.rest) ∧ ∀ d x, d.rest = b :: (w ++ x) → Follows c'.rest x →
      exponentFrom negative down significand e d = .ok (n, d.past (b :: w)) := by
  unfold exponentFrom at h ⊢
  split at h
  · cases h
  · next b rest here =>
    dsimp only at h
    split at h
    · next digit =>
      split at h
      · next k c₁ read =>
        obtain ⟨w, split, onward⟩ := exponentDigits_local rfl read
        obtain ⟨rfl, scaled⟩ := ofParts_local h
        rw [Cursor.rest_step] at split
        refine ⟨b, w, by rw [here, split], ?_⟩
        intro d x ahead follows
        rw [ahead, past_cons ahead]
        dsimp only
        rw [if_pos digit, onward _ x (Cursor.rest_step d b _) follows]
        exact scaled _
      · next c₁ read =>
        split at h
        · cases h
        · next small =>
          cases h
          obtain ⟨w, split, onward⟩ := exponentDigits_local rfl read
          obtain ⟨w', r, run, all, stops⟩ := Cursor.exists_run Cursor.isDigit c₁.rest
          have skipped : c₁.skipDigits = c₁.past w' := Cursor.skip_past run all stops
          rw [Cursor.rest_step, run, ← List.append_assoc] at split
          rw [skipped, rest_past run]
          refine ⟨b, w ++ w', by rw [here, split], ?_⟩
          intro d x ahead follows
          rw [ahead, past_cons ahead]
          dsimp only
          have further : (d.step b (w ++ w' ++ x)).rest = w ++ (w' ++ x) := by
            rw [Cursor.rest_step, List.append_assoc]
          rw [if_pos digit, onward _ _ further (run ▸ follows.append w')]
          dsimp only
          have run' : ((d.step b (w ++ w' ++ x)).past w).rest = w' ++ x := rest_past further
          have skipped' : ((d.step b (w ++ w' ++ x)).past w).skipDigits = _ :=
            Cursor.skip_past run' all (follows.digit stops)
          rw [if_neg small, skipped', past_append]
    · cases h

theorem exponentPart_local (h : exponentPart negative significand e c = .ok (n, c')) :
    ∃ b w, c.rest = b :: (w ++ c'.rest) ∧ ∀ d x, d.rest = b :: (w ++ x) → Follows c'.rest x →
      exponentPart negative significand e d = .ok (n, d.past (b :: w)) := by
  rw [exponentPart_eq] at h
  cases here : c.rest with
  | nil =>
    have stay : c.advance = c := by rw [Cursor.advance, here]
    have blind : ∀ ch, c.peeks ch = false := by
      intro ch
      rw [Cursor.peeks, Cursor.peek?, here]
      rfl
    simp [stay, blind, exponentFrom, here] at h
  | cons b rest =>
    have first := Cursor.rest_advance here
    by_cases sign : (c.advance.peeks '-' || c.advance.peeks '+') = true
    · rw [if_pos sign] at h
      obtain ⟨g, w, split, onward⟩ := exponentFrom_local h
      have some : rest ≠ [] := by
        rintro rfl
        simp [Cursor.peeks, Cursor.peek?, first] at sign
      obtain ⟨s, more, rfl⟩ := List.exists_cons_of_ne_nil some
      rw [Cursor.rest_advance first] at split
      refine ⟨b, s :: g :: w, by rw [split]; rfl, ?_⟩
      intro d x ahead follows
      have first' := Cursor.rest_advance ahead
      have same : d.advance.rest.head? = c.advance.rest.head? := by
        rw [first, first']
        rfl
      rw [exponentPart_eq, peeks_congr same, peeks_congr same, if_pos sign,
        onward _ x (Cursor.rest_advance first') follows]
      rfl
    · rw [if_neg sign] at h
      obtain ⟨g, w, split, onward⟩ := exponentFrom_local h
      rw [first] at split
      refine ⟨b, g :: w, by rw [split]; rfl, ?_⟩
      intro d x ahead follows
      have first' := Cursor.rest_advance ahead
      have same : d.advance.rest.head? = c.advance.rest.head? := by
        rw [first, first', split]
        rfl
      rw [exponentPart_eq, peeks_congr same, peeks_congr same, if_neg sign,
        onward _ x first' follows]
      rfl

theorem exponentOrEnd_local (h : exponentOrEnd negative significand e c = .ok (n, c')) :
    Local Follows (exponentOrEnd negative significand e) c n c' := by
  unfold exponentOrEnd at h
  split at h
  · next letter =>
    obtain ⟨b, w, split, onward⟩ := exponentPart_local h
    refine ⟨b :: w, split, ?_⟩
    intro d x ahead follows
    have same : d.rest.head? = c.rest.head? := by
      rw [ahead, split]
      rfl
    rw [exponentOrEnd, peeks_congr same, peeks_congr same, if_pos letter]
    exact onward d x ahead follows
  · next none =>
    obtain ⟨rfl, scaled⟩ := ofParts_local h
    refine ⟨[], rfl, ?_⟩
    intro d x ahead follows
    rw [List.nil_append] at ahead
    rw [← ahead] at follows
    have none' := follows.no_exponent (Bool.eq_false_iff.mpr none)
    rw [exponentOrEnd, none', if_neg Bool.false_ne_true]
    exact scaled d

/-- Behind the point there is a digit at least, which need not fit any more. -/
theorem fractionPart_eq {significand' count : Nat} {c₁ : Cursor}
    (read : digits c.advance.rest significand 0 c.advance = (significand', count, c₁))
    (filled : count ≠ 0 ∨ ∃ b more, c₁.rest = b :: more ∧ Cursor.isDigit b = true) :
    fractionPart negative significand e c =
      exponentOrEnd negative significand' (e - count) c₁.skipDigits := by
  have stay : ∀ {r}, c₁.rest = r → (∀ b, r.head? = some b → Cursor.isDigit b = false) →
      c₁.skipDigits = c₁ := by
    rintro r rfl stops
    exact Cursor.skip_past (w := []) rfl nofun stops
  simp only [fractionPart, read]
  cases here : c₁.rest with
  | nil =>
    have digits : count ≠ 0 := by
      obtain digits | ⟨b, more, ahead, _⟩ := filled
      · exact digits
      · rw [here] at ahead
        cases ahead
    dsimp only
    rw [if_neg digits, stay here fun _ head => by cases head]
  | cons b more =>
    dsimp only
    by_cases digit : Cursor.isDigit b = true
    · rw [if_pos digit]
    · have digits : count ≠ 0 := by
        obtain digits | ⟨b', more', ahead, digit'⟩ := filled
        · exact digits
        · rw [here] at ahead
          cases ahead
          exact absurd digit' digit
      have stops : ∀ b', (b :: more).head? = some b' → Cursor.isDigit b' = false := by
        intro b' head
        cases head
        exact Bool.eq_false_iff.mpr digit
      rw [if_neg digit, if_neg digits, stay here stops]

theorem fractionPart_read (h : fractionPart negative significand e c = .ok (n, c')) :
    ∃ significand' count c₁,
      digits c.advance.rest significand 0 c.advance = (significand', count, c₁) ∧
      (count ≠ 0 ∨ ∃ b more, c₁.rest = b :: more ∧ Cursor.isDigit b = true) := by
  simp only [fractionPart] at h
  refine ⟨_, _, _, rfl, ?_⟩
  generalize digits c.advance.rest significand 0 c.advance = out at h
  obtain ⟨significand', count, c₁⟩ := out
  dsimp only at h ⊢
  split at h
  · next b more here =>
    split at h
    · next digit => exact .inr ⟨b, more, here, digit⟩
    · split at h
      · cases h
      · next none => exact .inl none
  · split at h
    · cases h
    · next none => exact .inl none

theorem fractionPart_local (point : ∃ b more, c.rest = b :: more)
    (h : fractionPart negative significand e c = .ok (n, c')) :
    ∃ b w, c.rest = b :: (w ++ c'.rest) ∧ ∀ d x, d.rest = b :: (w ++ x) → Follows c'.rest x →
      fractionPart negative significand e d = .ok (n, d.past (b :: w)) := by
  obtain ⟨b, more, here⟩ := point
  obtain ⟨significand', count, c₁, read, filled⟩ := fractionPart_read h
  rw [fractionPart_eq read filled] at h
  obtain ⟨w, split, onward⟩ := digits_local rfl read
  obtain ⟨w', r, run, all, stops⟩ := Cursor.exists_run Cursor.isDigit c₁.rest
  have skipped : c₁.skipDigits = c₁.past w' := Cursor.skip_past run all stops
  rw [skipped] at h
  obtain ⟨w'', split', onward'⟩ := exponentOrEnd_local h
  rw [rest_past run] at split'
  subst split'
  rw [Cursor.rest_advance here, run] at split
  refine ⟨b, w ++ (w' ++ w''), by rw [here, split]; simp, ?_⟩
  intro d x ahead follows
  have ahead₁ : d.advance.rest = w ++ (w' ++ (w'' ++ x)) := by
    rw [Cursor.rest_advance ahead]
    simp
  have ahead₂ := rest_past ahead₁
  have ahead₃ := rest_past ahead₂
  have read' := onward _ _ ahead₁ (run ▸ (follows.append w'').append w')
  have filled' : count ≠ 0 ∨ ∃ b more, (d.advance.past w).rest = b :: more ∧
      Cursor.isDigit b = true := by
    obtain digits | ⟨g, rest, next, digit⟩ := filled
    · exact .inl digits
    · cases w' with
      | nil =>
        rw [List.nil_append] at run
        have last := stops g (by rw [← run, next]; rfl)
        rw [last] at digit
        cases digit
      | cons g' w' => exact .inr ⟨g', _, ahead₂, all g' List.mem_cons_self⟩
  have skipped' : (d.advance.past w).skipDigits = (d.advance.past w).past w' :=
    Cursor.skip_past ahead₂ all ((follows.append w'').digit stops)
  rw [fractionPart_eq read' filled', skipped', onward' _ x ahead₃ follows, Cursor.past, past_append,
    past_append]

theorem numberTail_local (h : numberTail negative significand c = .ok (n, c')) :
    Local Follows (numberTail negative significand) c n c' := by
  unfold numberTail at h
  split at h
  · next point =>
    have some : ∃ b more, c.rest = b :: more := by
      cases here : c.rest with
      | nil => simp [Cursor.peeks, Cursor.peek?, here] at point
      | cons b more => exact ⟨b, more, rfl⟩
    obtain ⟨b, w, split, onward⟩ := fractionPart_local some h
    refine ⟨b :: w, split, ?_⟩
    intro d x ahead follows
    have same : d.rest.head? = c.rest.head? := by
      rw [ahead, split]
      rfl
    rw [numberTail, peeks_congr same, if_pos point]
    exact onward d x ahead follows
  · next no_point =>
    split at h
    · next letter =>
      obtain ⟨b, w, split, onward⟩ := exponentPart_local h
      refine ⟨b :: w, split, ?_⟩
      intro d x ahead follows
      have same : d.rest.head? = c.rest.head? := by
        rw [ahead, split]
        rfl
      rw [numberTail, peeks_congr same, peeks_congr same, peeks_congr same, if_neg no_point,
        if_pos letter]
      exact onward d x ahead follows
    · next no_letter =>
      cases h
      refine ⟨[], rfl, ?_⟩
      intro d x ahead follows
      rw [List.nil_append] at ahead
      rw [← ahead] at follows
      rw [numberTail, follows.no_point (Bool.eq_false_iff.mpr no_point),
        follows.no_exponent (Bool.eq_false_iff.mpr no_letter), if_neg Bool.false_ne_true,
        if_neg Bool.false_ne_true]
      rfl

/-- A zero stands alone before the point. -/
theorem number_zero {b : UInt8} {rest : List UInt8} (here : c.rest = b :: rest)
    (zero : b = '0'.toUInt8) (alone : ∀ b, rest.head? = some b → Cursor.isDigit b = false) :
    number negative c = numberTail negative 0 (c.step b rest) := by
  rw [number, here]
  dsimp only
  rw [if_pos zero]
  cases rest with
  | nil => rfl
  | cons b' more =>
    dsimp only
    rw [alone b' rfl, if_neg Bool.false_ne_true]

/-- What a number comes to behind the digits that fit. -/
def numberRest (negative : Bool) (significand : Nat) : Reader Number := fun c =>
  match c.rest with
  | b :: _ =>
    if Cursor.isDigit b then
      let (dropped, c) := countDigits c.rest 0 c
      if c.peeks '.' then fractionPart negative significand dropped c
      else exponentOrEnd negative significand dropped c
    else numberTail negative significand c
  | [] => numberTail negative significand c

theorem number_digit {b : UInt8} {rest : List UInt8} (here : c.rest = b :: rest)
    (nonzero : b ≠ '0'.toUInt8) (digit : Cursor.isDigit b = true) {significand count : Nat}
    {c₁ : Cursor} (read : digits (c.step b rest).rest (b.toNat - 48) 0 (c.step b rest) =
      (significand, count, c₁)) :
    number negative c = numberRest negative significand c₁ := by
  rw [Cursor.rest_step] at read
  rw [number, here]
  dsimp only
  rw [if_neg nonzero, if_pos digit, read]
  rfl

theorem numberRest_short (stops : ∀ b, c.rest.head? = some b → Cursor.isDigit b = false) :
    numberRest negative significand c = numberTail negative significand c := by
  rw [numberRest]
  split
  · next b more here =>
    rw [stops b (by rw [here]; rfl), if_neg Bool.false_ne_true]
  · rfl

theorem numberRest_long {b : UInt8} {w r : List UInt8} (here : c.rest = b :: (w ++ r))
    (all : ∀ b' ∈ b :: w, Cursor.isDigit b' = true)
    (stops : ∀ b, r.head? = some b → Cursor.isDigit b = false) :
    numberRest negative significand c =
      if (c.past (b :: w)).peeks '.' then
        fractionPart negative significand (b :: w).length (c.past (b :: w))
      else exponentOrEnd negative significand (b :: w).length (c.past (b :: w)) := by
  have counted := countDigits_past (c := c) (w := b :: w) here all stops 0
  rw [here] at counted
  rw [numberRest, here]
  dsimp only
  rw [if_pos (all b List.mem_cons_self), counted, Nat.zero_add]

theorem numberRest_local (h : numberRest negative significand c = .ok (n, c')) :
    Local Follows (numberRest negative significand) c n c' := by
  obtain ⟨w, r, run, all, stops⟩ := Cursor.exists_run Cursor.isDigit c.rest
  cases w with
  | nil =>
    rw [List.nil_append] at run
    subst run
    rw [numberRest_short stops] at h
    obtain ⟨w, split, onward⟩ := numberTail_local h
    refine ⟨w, split, ?_⟩
    intro d x ahead follows
    have stops' : ∀ b, d.rest.head? = some b → Cursor.isDigit b = false := by
      rw [ahead]
      rw [split] at stops
      exact (follows.append w).digit stops
    rw [numberRest_short stops']
    exact onward d x ahead follows
  | cons b w =>
    rw [numberRest_long run all stops] at h
    have after := rest_past run
    by_cases point : (c.past (b :: w)).peeks '.' = true
    · rw [if_pos point] at h
      have there : ∃ b' more, (c.past (b :: w)).rest = b' :: more := by
        cases here : (c.past (b :: w)).rest with
        | nil => simp [Cursor.peeks, Cursor.peek?, here] at point
        | cons b' more => exact ⟨b', more, rfl⟩
      obtain ⟨g, w', split, onward⟩ := fractionPart_local there h
      rw [after] at split
      subst split
      refine ⟨b :: w ++ g :: w', by rw [run]; simp, ?_⟩
      intro d x ahead follows
      have ahead' : d.rest = b :: (w ++ g :: (w' ++ x)) := by
        rw [ahead]
        simp
      have after' : (d.past (b :: w)).rest = g :: (w' ++ x) := rest_past ahead'
      have same : (d.past (b :: w)).rest.head? = (c.past (b :: w)).rest.head? := by
        rw [after, after']
        rfl
      rw [numberRest_long ahead' all fun b' head => stops b' head, peeks_congr same, if_pos point,
        onward _ x after' follows, past_append]
    · rw [if_neg point] at h
      obtain ⟨w', split, onward⟩ := exponentOrEnd_local h
      rw [after] at split
      subst split
      refine ⟨b :: w ++ w', by rw [run]; simp, ?_⟩
      intro d x ahead follows
      have ahead' : d.rest = b :: (w ++ (w' ++ x)) := by
        rw [ahead]
        simp
      have after' : (d.past (b :: w)).rest = w' ++ x := rest_past ahead'
      have follows' : Follows (c.past (b :: w)).rest (d.past (b :: w)).rest := by
        rw [after, after']
        exact follows.append w'
      rw [numberRest_long ahead' all ((follows.append w').digit stops),
        follows'.no_point (Bool.eq_false_iff.mpr point), if_neg Bool.false_ne_true,
        onward _ x after' follows, past_append]

/-- A number is read again where what follows it is no part of it, or is what followed before. -/
theorem number_local (h : number negative c = .ok (n, c')) :
    ∃ b w, c.rest = b :: (w ++ c'.rest) ∧ ∀ d x, d.rest = b :: (w ++ x) → Follows c'.rest x →
      number negative d = .ok (n, d.past (b :: w)) := by
  cases here : c.rest with
  | nil =>
    rw [number, here] at h
    cases h
  | cons b rest =>
    by_cases zero : b = '0'.toUInt8
    · have alone : ∀ b, rest.head? = some b → Cursor.isDigit b = false := by
        intro b' head
        obtain ⟨more, rfl⟩ := List.head?_eq_some_iff.mp head
        rw [number, here] at h
        dsimp only at h
        rw [if_pos zero] at h
        split at h
        · cases h
        · next other => exact Bool.eq_false_iff.mpr other
      rw [number_zero here zero alone] at h
      obtain ⟨w, split, onward⟩ := numberTail_local h
      rw [Cursor.rest_step] at split
      subst split
      refine ⟨b, w, rfl, ?_⟩
      intro d x ahead follows
      rw [number_zero ahead zero ((follows.append w).digit alone), past_cons ahead]
      exact onward _ x (Cursor.rest_step d b _) follows
    · have digit : Cursor.isDigit b = true := by
        by_contra other
        rw [number, here] at h
        dsimp only at h
        rw [if_neg zero, if_neg other] at h
        cases h
      obtain ⟨⟨significand, count, c₁⟩, read⟩ : ∃ out,
        digits (c.step b rest).rest (b.toNat - 48) 0 (c.step b rest) = out := ⟨_, rfl⟩
      rw [number_digit here zero digit read] at h
      obtain ⟨w, split, onward⟩ := digits_local rfl read
      obtain ⟨w', split', onward'⟩ := numberRest_local h
      rw [Cursor.rest_step, split'] at split
      subst split
      refine ⟨b, w ++ w', by simp, ?_⟩
      intro d x ahead follows
      have first : (d.step b (w ++ w' ++ x)).rest = w ++ (w' ++ x) := by
        rw [Cursor.rest_step, List.append_assoc]
      have read' := onward _ _ first (split' ▸ follows.append w')
      rw [number_digit ahead zero digit read', past_cons ahead, past_append]
      exact onward' _ x (rest_past first) follows

end Parts

end ModuleSystem.Json
