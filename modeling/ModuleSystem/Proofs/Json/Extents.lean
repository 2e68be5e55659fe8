import ModuleSystem.Proofs.Json.Locality

/-! A value that was read takes some bytes behind white space. Wherever these bytes come next, the
same value is read from them, with as much fuel as they are long. -/

namespace ModuleSystem.Json

open Cursor (past_append rest_past past_cons)

section Between

variable {c c' : Cursor} {first : Bool}

/-- Behind white space there is a byte that is none. -/
theorem skipSpaces_spec (c : Cursor) : ∃ gap r, c.rest = gap ++ r ∧ Spaces gap ∧
    (∀ b, r.head? = some b → Cursor.isSpace b = false) ∧ c.skipSpaces = c.past gap ∧
      c.skipSpaces.rest = r := by
  obtain ⟨gap, r, run, blank, stops⟩ := Cursor.exists_run Cursor.isSpace c.rest
  have skipped := Cursor.skipSpaces_past run blank stops
  exact ⟨gap, r, run, blank, stops, skipped, skipped ▸ rest_past run⟩

/-- The same, where something follows. -/
theorem skipSpaces_cons {b : UInt8} {rest : List UInt8} (here : c.skipSpaces.rest = b :: rest) :
    ∃ gap, c.rest = gap ++ b :: rest ∧ Spaces gap ∧ Cursor.isSpace b = false ∧
      ∀ (d : Cursor) (x : List UInt8), d.rest = gap ++ b :: x →
        d.skipSpaces = d.past gap ∧ d.skipSpaces.rest = b :: x := by
  obtain ⟨gap, r, run, blank, stops, _, after⟩ := skipSpaces_spec c
  rw [here] at after
  subst after
  refine ⟨gap, run, blank, stops b rfl, ?_⟩
  intro d x ahead
  have skipped : d.skipSpaces = d.past gap := by
    apply Cursor.skipSpaces_past ahead blank
    intro b' head
    cases head
    exact stops b rfl
  exact ⟨skipped, skipped ▸ rest_past ahead⟩

theorem moreItems_local {more : Bool} (h : moreItems first c = .ok (more, c')) :
    ∃ w b r, c.rest = w ++ b :: r ∧ c'.rest = b :: r ∧ (more = false → b = ']'.toUInt8) ∧
      ∀ d x, d.rest = w ++ b :: x → moreItems first d = .ok (more, d.past w) := by
  simp only [moreItems] at h
  split at h
  · cases h
  · next b rest here =>
    obtain ⟨gap, split, _, _, elsewhere⟩ := skipSpaces_cons here
    split at h
    · next bracket =>
      cases h
      refine ⟨gap, b, rest, split, here, fun _ => bracket, ?_⟩
      intro d x ahead
      obtain ⟨skipped, after⟩ := elsewhere d x ahead
      simp only [moreItems, after, if_pos bracket]
      rw [skipped]
    split at h
    · next no_bracket begins =>
      cases h
      refine ⟨gap, b, rest, split, here, by simp, ?_⟩
      intro d x ahead
      obtain ⟨skipped, after⟩ := elsewhere d x ahead
      simp only [moreItems, after, if_neg no_bracket, if_pos begins]
      rw [skipped]
    split at h
    · next no_bracket later comma =>
      split at h
      · cases h
      · next b' rest' here' =>
        split at h
        · cases h
        · next no_bracket' =>
          cases h
          obtain ⟨gap', split', _, _, elsewhere'⟩ := skipSpaces_cons here'
          rw [Cursor.rest_advance here] at split'
          subst split'
          refine ⟨gap ++ b :: gap', b', rest', by rw [split]; simp, here', by simp, ?_⟩
          intro d x ahead
          have ahead' : d.rest = gap ++ b :: (gap' ++ b' :: x) := by
            rw [ahead]
            simp
          obtain ⟨skipped, after⟩ := elsewhere d _ ahead'
          obtain ⟨skipped', after'⟩ := elsewhere' _ x (Cursor.rest_advance after)
          simp only [moreItems, after, if_neg no_bracket, if_neg later, if_pos comma, after',
            if_neg no_bracket']
          rw [skipped', skipped, past_append]
          rfl
    · cases h

theorem colon_local (h : colon c = .ok c') :
    ∃ w, c.rest = w ++ c'.rest ∧ ∀ d x, d.rest = w ++ x → colon d = .ok (d.past w) := by
  simp only [colon] at h
  split at h
  · cases h
  · next b rest here =>
    split at h
    · next colon =>
      cases h
      obtain ⟨gap, split, _, _, elsewhere⟩ := skipSpaces_cons here
      rw [Cursor.rest_advance here]
      refine ⟨gap ++ [b], by rw [split]; simp, ?_⟩
      intro d x ahead
      rw [List.append_assoc, List.singleton_append] at ahead
      obtain ⟨skipped, after⟩ := elsewhere d x ahead
      simp only [Json.colon, after, if_pos colon]
      rw [skipped, past_append]
      rfl
    · cases h

theorem nextName_none (h : nextName first c = .ok (none, c')) :
    ∃ w r, c.rest = w ++ '\x7d'.toUInt8 :: r ∧ c'.rest = '\x7d'.toUInt8 :: r ∧
      ∀ d x, d.rest = w ++ '\x7d'.toUInt8 :: x → nextName first d = .ok (none, d.past w) := by
  have no_name : ∀ {c : Cursor}, ((stringTail c.advance).bind fun read =>
      .ok (some read.1, read.2)) ≠ Except.ok (none, c') := by
    intro c named
    obtain ⟨_, _, done⟩ := Except.of_bind_ok named
    cases done
  simp only [nextName] at h
  split at h
  · cases h
  · next b rest here =>
    split at h
    · next brace =>
      cases h
      obtain ⟨gap, split, _, _, elsewhere⟩ := skipSpaces_cons here
      subst brace
      refine ⟨gap, rest, split, here, ?_⟩
      intro d x ahead
      obtain ⟨skipped, after⟩ := elsewhere d x ahead
      simp only [nextName, after, if_true]
      rw [skipped]
    · split at h
      · split at h
        · exact absurd h no_name
        · cases h
      · split at h
        · split at h
          · cases h
          · split at h
            · exact absurd h no_name
            · split at h <;> cases h
        · cases h

/-- The name itself, whatever was skipped before it. -/
theorem name_local {name : String} {b : UInt8} {rest : List UInt8} (here : c.rest = b :: rest)
    (h : ((stringTail c.advance).bind fun read => .ok (some read.1, read.2)) =
      Except.ok (some name, c')) :
    ∃ w, rest = w ++ c'.rest ∧ ∀ (d : Cursor) (x : List UInt8), d.rest = b :: (w ++ x) →
      ((stringTail d.advance).bind fun read => .ok (some read.1, read.2)) =
        Except.ok (ε := ReadError) (some name, d.past (b :: w)) := by
  obtain ⟨⟨text, c₁⟩, read, done⟩ := Except.of_bind_ok h
  cases done
  obtain ⟨w, split, elsewhere⟩ := stringTail_local read
  rw [Cursor.rest_advance here] at split
  refine ⟨w ++ ['\x22'.toUInt8], by rw [split]; simp, ?_⟩
  intro d x ahead
  rw [elsewhere d.advance x (by rw [Cursor.rest_advance ahead]; simp)]
  rfl

/-- A name, which ends with its quote. -/
theorem nextName_some {name : String} (h : nextName first c = .ok (some name, c')) :
    ∃ w, w ≠ [] ∧ c.rest = w ++ c'.rest ∧ ∀ d x, d.rest = w ++ x →
      nextName first d = .ok (some name, d.past w) := by
  simp only [nextName] at h
  split at h
  · cases h
  · next b rest here =>
    obtain ⟨gap, split, _, _, elsewhere⟩ := skipSpaces_cons here
    split at h
    · cases h
    · next no_brace =>
      split at h
      · next begins =>
        split at h
        · next quote =>
          obtain ⟨w, split', elsewhere'⟩ := name_local here h
          subst split'
          refine ⟨gap ++ b :: w, by simp, by rw [split]; simp, ?_⟩
          intro d x ahead
          have ahead' : d.rest = gap ++ b :: (w ++ x) := by
            rw [ahead]
            simp
          obtain ⟨skipped, after⟩ := elsewhere d _ ahead'
          simp only [nextName, after, if_neg no_brace, if_pos begins, if_pos quote]
          rw [past_append, ← skipped]
          exact elsewhere' _ x after
        · cases h
      · next later =>
        split at h
        · next comma =>
          split at h
          · cases h
          · next b' rest' here' =>
            obtain ⟨gap', split', _, _, elsewhere₁⟩ := skipSpaces_cons here'
            rw [Cursor.rest_advance here] at split'
            subst split'
            split at h
            · next quote =>
              obtain ⟨w, split', elsewhere'⟩ := name_local here' h
              subst split'
              refine ⟨gap ++ b :: (gap' ++ b' :: w), by simp, by rw [split]; simp, ?_⟩
              intro d x ahead
              have ahead' : d.rest = gap ++ b :: (gap' ++ b' :: (w ++ x)) := by
                rw [ahead]
                simp
              obtain ⟨skipped, after⟩ := elsewhere d _ ahead'
              obtain ⟨skipped', after'⟩ := elsewhere₁ _ _ (Cursor.rest_advance after)
              simp only [nextName, after, if_neg no_brace, if_neg later, if_pos comma, after',
                if_pos quote]
              rw [past_append, ← skipped, Cursor.past, past_append, ← skipped']
              exact elsewhere' _ x after'
            · split at h <;> cases h
        · cases h

end Between

/-! ### Values -/

/-- Strings, arrays and objects begin so. They end by themselves. -/
def Opens (b : UInt8) : Prop := b = '\x22'.toUInt8 ∨ b = '['.toUInt8 ∨ b = '\x7b'.toUInt8

instance (b : UInt8) : Decidable (Opens b) := inferInstanceAs (Decidable (_ ∨ _ ∨ _))

/-- A value from its first byte on, which stands at `c`. -/
def valueFrom (fuel depth : Nat) (b : UInt8) (c after : Cursor) : Except ReadError (Json × Cursor) :=
  if b = 'n'.toUInt8 then do
    return (.null, ← wordTail ['u', 'l', 'l'] after)
  else if b = 't'.toUInt8 then do
    return (.bool true, ← wordTail ['r', 'u', 'e'] after)
  else if b = 'f'.toUInt8 then do
    return (.bool false, ← wordTail ['a', 'l', 's', 'e'] after)
  else if b = '-'.toUInt8 then do
    let (n, c) ← number true after
    return (n.toJson, c)
  else if Cursor.isDigit b then do
    let (n, c) ← number false c
    return (n.toJson, c)
  else if b = '\x22'.toUInt8 then do
    let (s, c) ← stringTail after
    return (.string s, c)
  else if b = '['.toUInt8 then
    if depth ≤ 1 then .error (c.faultAhead .tooDeep)
    else do
      let (read, c) ← items fuel (depth - 1) true [] after
      return (.array read.reverse, c)
  else if b = '\x7b'.toUInt8 then
    if depth ≤ 1 then .error (c.faultAhead .tooDeep)
    else do
      let (read, c) ← members fuel (depth - 1) true [] after
      return (.object read, c)
  else .error (c.faultAhead .expectedValue)

theorem value_succ (fuel depth : Nat) (c : Cursor) : value (fuel + 1) depth c =
    match c.skipSpaces.rest with
    | [] => .error (c.skipSpaces.faultAhead .eofValue)
    | b :: rest => valueFrom fuel depth b c.skipSpaces (c.skipSpaces.step b rest) := by
  simp only [value]
  rfl

theorem value_behind {fuel depth : Nat} {gap rest : List UInt8} {b : UInt8} {d : Cursor}
    (here : d.rest = gap ++ b :: rest) (blank : Spaces gap) (visible : Cursor.isSpace b = false) :
    value (fuel + 1) depth d =
      valueFrom fuel depth b (d.past gap) ((d.past gap).step b rest) := by
  have skipped : d.skipSpaces = d.past gap := by
    apply Cursor.skipSpaces_past here blank
    intro b' head
    cases head
    exact visible
  rw [value_succ, skipped, rest_past here]

/-- The bytes of a value that was read between `c` and `c'`: white space, the first byte `b`, and `w`.
Wherever `b` and `w` come next behind white space, the value is read again. -/
structure Occupies (depth : Nat) (c : Cursor) (j : Json) (c' : Cursor) (gap : List UInt8) (b : UInt8)
    (w : List UInt8) : Prop where
  split : c.rest = gap ++ b :: (w ++ c'.rest)
  blank : Spaces gap
  visible : Cursor.isSpace b = false
  ends : Opens b → ∃ v e, w = v ++ [e] ∧ e < 0x80
  elsewhere : ∀ (fuel : Nat) (gap' x : List UInt8) (d : Cursor), 2 * (w.length + 1) ≤ fuel →
    Spaces gap' → d.rest = gap' ++ b :: (w ++ x) → Follows c'.rest x →
    value fuel depth d = .ok (j, d.past (gap' ++ b :: w))

/-- What `items` and `members` do up to the byte that closes the list. -/
def Closes {α : Type} (close : UInt8) (read : Nat → Reader α) (c : Cursor) (a : α) (c' : Cursor) :
    Prop :=
  ∃ w, c.rest = w ++ close :: c'.rest ∧ ∀ (fuel : Nat) (x : List UInt8) (d : Cursor),
    2 * (w.length + 1) ≤ fuel → d.rest = w ++ close :: x →
    read fuel d = .ok (a, d.past (w ++ [close]))

section Values

variable {fuel depth : Nat} {b : UInt8} {rest : List UInt8} {j : Json} {c c' : Cursor}

/-- A value from its first byte on. -/
def OccupiesFrom (depth : Nat) (b : UInt8) (rest : List UInt8) (j : Json) (c' : Cursor) : Prop :=
  ∃ w, rest = w ++ c'.rest ∧ (Opens b → ∃ v e, w = v ++ [e] ∧ e < 0x80) ∧
    ∀ (fuel : Nat) (x : List UInt8) (d : Cursor), 2 * w.length < fuel →
      d.rest = b :: (w ++ x) → Follows c'.rest x →
      valueFrom fuel depth b d (d.step b (w ++ x)) = .ok (j, d.past (b :: w))

theorem word_from {word : List Char} {j' : Json} (closed : ¬Opens b)
    (from_word : ∀ (fuel : Nat) (d after : Cursor), valueFrom fuel depth b d after =
      (wordTail word after >>= fun c => .ok (j', c)))
    (h : valueFrom fuel depth b c (c.step b rest) = .ok (j, c')) :
    OccupiesFrom depth b rest j c' := by
  rw [from_word] at h
  obtain ⟨_, read, done⟩ := Except.of_bind_ok h
  cases done
  obtain ⟨w, split, elsewhere⟩ := wordTail_local read
  rw [Cursor.rest_step] at split
  refine ⟨w, split, fun opens => absurd opens closed, ?_⟩
  intro fuel x d _ ahead _
  rw [from_word, elsewhere _ x (Cursor.rest_step d b _), past_cons ahead]
  rfl

theorem minus_from (h : valueFrom fuel depth '-'.toUInt8 c (c.step '-'.toUInt8 rest) = .ok (j, c')) :
    OccupiesFrom depth '-'.toUInt8 rest j c' := by
  obtain ⟨⟨n, _⟩, read, done⟩ := Except.of_bind_ok h
  cases done
  obtain ⟨g, w, split, elsewhere⟩ := number_local read
  rw [Cursor.rest_step] at split
  refine ⟨g :: w, split, fun opens => absurd opens (by decide), ?_⟩
  intro fuel x d _ ahead follows
  have again := elsewhere _ x (Cursor.rest_step d '-'.toUInt8 (g :: w ++ x)) follows
  change (number true _ >>= _) = _
  rw [again, past_cons ahead]
  rfl

theorem digit_from (digit : Cursor.isDigit b = true) (here : c.rest = b :: rest)
    (from_digit : ∀ (fuel : Nat) (d after : Cursor), valueFrom fuel depth b d after =
      (number false d >>= fun read => .ok (read.1.toJson, read.2)))
    (h : valueFrom fuel depth b c (c.step b rest) = .ok (j, c')) :
    OccupiesFrom depth b rest j c' := by
  rw [from_digit] at h
  obtain ⟨⟨n, _⟩, read, done⟩ := Except.of_bind_ok h
  cases done
  obtain ⟨g, w, split, elsewhere⟩ := number_local read
  rw [here, List.cons.injEq] at split
  obtain ⟨rfl, split⟩ := split
  have closed : ¬Opens b := by
    rintro (rfl | rfl | rfl) <;> exact absurd digit (by decide)
  refine ⟨w, split, fun opens => absurd opens closed, ?_⟩
  intro fuel x d _ ahead follows
  rw [from_digit, elsewhere d x ahead follows]
  rfl

theorem quote_from
    (h : valueFrom fuel depth '\x22'.toUInt8 c (c.step '\x22'.toUInt8 rest) = .ok (j, c')) :
    OccupiesFrom depth '\x22'.toUInt8 rest j c' := by
  obtain ⟨⟨s, _⟩, read, done⟩ := Except.of_bind_ok h
  cases done
  obtain ⟨w, split, elsewhere⟩ := stringTail_local read
  rw [Cursor.rest_step] at split
  refine ⟨w ++ ['\x22'.toUInt8], by rw [split]; simp, fun _ => ⟨w, _, rfl, by decide⟩, ?_⟩
  intro fuel x d _ ahead _
  have again := elsewhere (d.step '\x22'.toUInt8 (w ++ ['\x22'.toUInt8] ++ x)) x
    (by rw [Cursor.rest_step]; simp)
  change (stringTail _ >>= _) = _
  rw [again, past_cons ahead]
  rfl

/-- Arrays and objects, whose parts end with a closing byte. -/
theorem nested_from {α : Type} (close : UInt8) (read : Nat → Reader α) (whole : α → Json)
    (ascii : close < 0x80)
    (parts : ∀ {a} {c c' : Cursor}, read fuel c = .ok (a, c') → Closes close read c a c')
    (from_open : ∀ (fuel : Nat) (d after : Cursor), valueFrom fuel depth b d after =
      if depth ≤ 1 then .error (d.faultAhead .tooDeep)
      else read fuel after >>= fun read => .ok (whole read.1, read.2))
    (h : valueFrom fuel depth b c (c.step b rest) = .ok (j, c')) :
    OccupiesFrom depth b rest j c' := by
  rw [from_open] at h
  split at h
  · cases h
  · next deep =>
    obtain ⟨⟨a, _⟩, found, done⟩ := Except.of_bind_ok h
    cases done
    obtain ⟨w, split, elsewhere⟩ := parts found
    rw [Cursor.rest_step] at split
    refine ⟨w ++ [close], by rw [split]; simp, fun _ => ⟨w, _, rfl, ascii⟩, ?_⟩
    intro fuel x d enough ahead _
    rw [List.length_append, List.length_singleton] at enough
    have again := elsewhere fuel x (d.step b (w ++ [close] ++ x)) (by omega)
      (by rw [Cursor.rest_step]; simp)
    rw [from_open, if_neg deep, again, past_cons ahead]
    rfl

/-- What one more unit of fuel adds to the reading of values, given that of their parts. -/
theorem valueFrom_occupies
    (lists : ∀ {depth first read read'} {c c' : Cursor},
      items fuel depth first read c = .ok (read', c') →
        Closes ']'.toUInt8 (fun fuel => items fuel depth first read) c read' c')
    (records : ∀ {depth first} {read read' : Fields Json} {c c' : Cursor},
      members fuel depth first read c = .ok (read', c') →
        Closes '\x7d'.toUInt8 (fun fuel => members fuel depth first read) c read' c')
    (here : c.rest = b :: rest) (h : valueFrom fuel depth b c (c.step b rest) = .ok (j, c')) :
    OccupiesFrom depth b rest j c' := by
  by_cases null : b = 'n'.toUInt8
  · subst null
    exact word_from (by decide) (fun _ _ _ => rfl) h
  by_cases true_ : b = 't'.toUInt8
  · subst true_
    exact word_from (by decide) (fun _ _ _ => rfl) h
  by_cases false_ : b = 'f'.toUInt8
  · subst false_
    exact word_from (by decide) (fun _ _ _ => rfl) h
  by_cases minus : b = '-'.toUInt8
  · subst minus
    exact minus_from h
  by_cases digit : Cursor.isDigit b = true
  · apply digit_from digit here _ h
    intro fuel d after
    rw [valueFrom, if_neg null, if_neg true_, if_neg false_, if_neg minus, if_pos digit]
    rfl
  by_cases quote : b = '\x22'.toUInt8
  · subst quote
    exact quote_from h
  by_cases bracket : b = '['.toUInt8
  · subst bracket
    exact nested_from ']'.toUInt8 (fun fuel => items fuel (depth - 1) true [])
      (fun read => .array read.reverse) (by decide) lists (fun _ _ _ => rfl) h
  by_cases brace : b = '\x7b'.toUInt8
  · subst brace
    exact nested_from '\x7d'.toUInt8 (fun fuel => members fuel (depth - 1) true []) .object
      (by decide) records (fun _ _ _ => rfl) h
  · rw [valueFrom, if_neg null, if_neg true_, if_neg false_, if_neg minus, if_neg digit,
      if_neg quote, if_neg bracket, if_neg brace] at h
    cases h

theorem value_occupies_step
    (from_first : ∀ {depth b rest j} {c c' : Cursor}, c.rest = b :: rest →
      valueFrom fuel depth b c (c.step b rest) = .ok (j, c') → OccupiesFrom depth b rest j c')
    (h : value (fuel + 1) depth c = .ok (j, c')) :
    ∃ gap b w, Occupies depth c j c' gap b w := by
  rw [value_succ] at h
  split at h
  · cases h
  · next b rest here =>
    obtain ⟨gap, split, blank, visible, _⟩ := skipSpaces_cons here
    obtain ⟨w, split', ends, elsewhere⟩ := from_first here h
    subst split'
    refine ⟨gap, b, w, split, blank, visible, ends, ?_⟩
    intro fuel gap' x d enough blank' ahead follows
    obtain ⟨fuel, rfl⟩ := Nat.exists_eq_add_one.mpr (show 0 < fuel by omega)
    rw [value_behind ahead blank' visible, past_append]
    exact elsewhere fuel x _ (by omega) (rest_past ahead) follows

theorem items_closes {first : Bool} {read read' : List Json}
    (value_takes : ∀ {j} {c c' : Cursor}, value fuel depth c = .ok (j, c') →
      ∃ gap b w, Occupies depth c j c' gap b w)
    (more_items : ∀ {read read'} {c c' : Cursor},
      items fuel depth false read c = .ok (read', c') →
        Closes ']'.toUInt8 (fun fuel => items fuel depth false read) c read' c')
    (h : items (fuel + 1) depth first read c = .ok (read', c')) :
    Closes ']'.toUInt8 (fun fuel => items fuel depth first read) c read' c' := by
  rw [items] at h
  obtain ⟨⟨more, c₁⟩, asked, h⟩ := Except.of_bind_ok h
  obtain ⟨v, b, r, split, after, closes, elsewhere⟩ := moreItems_local asked
  cases more with
  | false =>
    cases h
    obtain rfl := closes rfl
    refine ⟨v, by rw [Cursor.rest_advance after]; exact split, ?_⟩
    intro fuel x d enough ahead
    obtain ⟨fuel, rfl⟩ := Nat.exists_eq_add_one.mpr (show 0 < fuel by omega)
    simp only [items, elsewhere d x ahead, bind, Except.bind]
    rw [past_append]
    rfl
  | true =>
    obtain ⟨⟨item, c₂⟩, found, h⟩ := Except.of_bind_ok h
    obtain ⟨gap, first_byte, w, occupies⟩ := value_takes found
    obtain ⟨w', split', elsewhere'⟩ := more_items h
    -- What follows the item is the end of the list, or another item, wherever the list stands.
    have item_split := occupies.split
    rw [after] at item_split
    have whole : c.rest = v ++ (gap ++ first_byte :: (w ++ c₂.rest)) := by
      rw [split, item_split]
    rw [split'] at whole
    refine ⟨v ++ (gap ++ first_byte :: (w ++ w')), by rw [whole]; simp, ?_⟩
    intro fuel x d enough ahead
    simp only [List.length_append, List.length_cons] at enough
    obtain ⟨fuel, rfl⟩ := Nat.exists_eq_add_one.mpr (show 0 < fuel by omega)
    have ahead₁ : d.rest = v ++ (gap ++ first_byte :: (w ++ (w' ++ ']'.toUInt8 :: x))) := by
      rw [ahead]
      simp
    obtain ⟨tail, begins⟩ : ∃ tail, gap ++ first_byte :: (w ++ (w' ++ ']'.toUInt8 :: x)) =
        b :: tail := by
      cases gap with
      | nil =>
        cases item_split
        exact ⟨_, rfl⟩
      | cons g gap =>
        cases item_split
        exact ⟨_, rfl⟩
    have asked' := elsewhere d tail (by rw [ahead₁, begins])
    have ahead₂ := rest_past ahead₁
    have follows : Follows c₂.rest (w' ++ ']'.toUInt8 :: x) := by
      rw [split']
      cases w' <;> exact .inl rfl
    have found' := occupies.elsewhere fuel gap _ _ (by omega) occupies.blank ahead₂ follows
    have ahead₃ : ((d.past v).past (gap ++ first_byte :: w)).rest = w' ++ ']'.toUInt8 :: x :=
      rest_past (by rw [ahead₂]; simp)
    have onward := elsewhere' fuel x _ (by omega) ahead₃
    simp only [items, asked', bind, Except.bind, if_true, found', onward]
    simp only [past_append, Cursor.past]

/-- Fields are read likewise, each behind its name and a colon. -/
theorem members_closes {first : Bool} {read read' : Fields Json}
    (value_takes : ∀ {j} {c c' : Cursor}, value fuel depth c = .ok (j, c') →
      ∃ gap b w, Occupies depth c j c' gap b w)
    (more_members : ∀ {read read' : Fields Json} {c c' : Cursor},
      members fuel depth false read c = .ok (read', c') →
        Closes '\x7d'.toUInt8 (fun fuel => members fuel depth false read) c read' c')
    (h : members (fuel + 1) depth first read c = .ok (read', c')) :
    Closes '\x7d'.toUInt8 (fun fuel => members fuel depth first read) c read' c' := by
  rw [members] at h
  obtain ⟨⟨name, c₁⟩, asked, h⟩ := Except.of_bind_ok h
  cases name with
  | none =>
    cases h
    obtain ⟨v, r, split, after, elsewhere⟩ := nextName_none asked
    refine ⟨v, by rw [Cursor.rest_advance after]; exact split, ?_⟩
    intro fuel x d enough ahead
    obtain ⟨fuel, rfl⟩ := Nat.exists_eq_add_one.mpr (show 0 < fuel by omega)
    simp only [members, elsewhere d x ahead, bind, Except.bind]
    rw [past_append]
    rfl
  | some name =>
    obtain ⟨c₂, coloned, h⟩ := Except.of_bind_ok h
    obtain ⟨⟨item, c₃⟩, found, h⟩ := Except.of_bind_ok h
    obtain ⟨v, some, split, elsewhere⟩ := nextName_some asked
    obtain ⟨u, split_colon, elsewhere_colon⟩ := colon_local coloned
    obtain ⟨gap, first_byte, w, occupies⟩ := value_takes found
    obtain ⟨w', split', elsewhere'⟩ := more_members h
    have whole : c.rest = v ++ (u ++ (gap ++ first_byte :: (w ++ c₃.rest))) := by
      rw [split, split_colon, occupies.split]
    rw [split'] at whole
    refine ⟨v ++ (u ++ (gap ++ first_byte :: (w ++ w'))), by rw [whole]; simp, ?_⟩
    intro fuel x d enough ahead
    simp only [List.length_append, List.length_cons] at enough
    obtain ⟨fuel, rfl⟩ := Nat.exists_eq_add_one.mpr (show 0 < fuel by omega)
    have ahead₁ : d.rest =
        v ++ (u ++ (gap ++ first_byte :: (w ++ (w' ++ '\x7d'.toUInt8 :: x)))) := by
      rw [ahead]
      simp
    have ahead₂ := rest_past ahead₁
    have ahead₃ := rest_past ahead₂
    have follows : Follows c₃.rest (w' ++ '\x7d'.toUInt8 :: x) := by
      rw [split']
      cases w' <;> exact .inl rfl
    have found' := occupies.elsewhere fuel gap _ _ (by omega) occupies.blank ahead₃ follows
    have ahead₄ : (((d.past v).past u).past (gap ++ first_byte :: w)).rest =
        w' ++ '\x7d'.toUInt8 :: x := rest_past (by rw [ahead₃]; simp)
    have onward := elsewhere' fuel x _ (by omega) ahead₄
    simp only [members, elsewhere d _ ahead₁, bind, Except.bind, elsewhere_colon _ _ ahead₂, found',
      onward]
    simp only [past_append, Cursor.past]

/-- The readers of values, items and fields call one another, each with less fuel. -/
theorem readers_local (fuel : Nat) :
    (∀ {depth} {c c' : Cursor} {j : Json}, value fuel depth c = .ok (j, c') →
      ∃ gap b w, Occupies depth c j c' gap b w) ∧
    (∀ {depth first read read'} {c c' : Cursor},
      items fuel depth first read c = .ok (read', c') →
        Closes ']'.toUInt8 (fun fuel => items fuel depth first read) c read' c') ∧
    (∀ {depth first} {read read' : Fields Json} {c c' : Cursor},
      members fuel depth first read c = .ok (read', c') →
        Closes '\x7d'.toUInt8 (fun fuel => members fuel depth first read) c read' c') := by
  induction fuel with
  | zero => refine ⟨fun h => ?_, fun h => ?_, fun h => ?_⟩ <;> cases h
  | succ fuel ih =>
    obtain ⟨values, lists, records⟩ := ih
    refine ⟨fun h => ?_, fun h => ?_, fun h => ?_⟩
    · exact value_occupies_step (fun here => valueFrom_occupies lists records here) h
    · exact items_closes values lists h
    · exact members_closes values records h

end Values

/-- A value takes some bytes behind white space, and the reader goes past them. -/
theorem valueAt_occupies {c c' : Cursor} {j : Json} (h : valueAt c = .ok (j, c')) :
    ∃ gap b w, Occupies depthLimit c j c' gap b w ∧ c' = c.past (gap ++ b :: w) := by
  obtain ⟨gap, b, w, occupies⟩ := (readers_local _).1 h
  refine ⟨gap, b, w, occupies, ?_⟩
  have enough : 2 * (w.length + 1) ≤ fuelFor c := by
    simp only [fuelFor, occupies.split, List.length_append, List.length_cons]
    omega
  have again := occupies.elsewhere (fuelFor c) gap c'.rest c enough occupies.blank occupies.split
    (.inl rfl)
  unfold valueAt at h
  rw [h] at again
  cases again
  rfl

/-- The value is read again where its bytes come next. -/
theorem Occupies.valueAt {c c' d : Cursor} {j : Json} {gap gap' w x : List UInt8} {b : UInt8}
    (h : Occupies depthLimit c j c' gap b w) (blank : Spaces gap')
    (ahead : d.rest = gap' ++ b :: (w ++ x)) (follows : Follows c'.rest x) :
    valueAt d = .ok (j, d.past (gap' ++ b :: w)) := by
  apply h.elsewhere _ _ _ _ _ blank ahead follows
  simp only [fuelFor, ahead, List.length_append, List.length_cons]
  omega

end ModuleSystem.Json
