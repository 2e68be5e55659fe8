import Mathlib
import ModuleSystem.Coverage.Report

namespace ModuleSystem.Coverage

theorem Span.lt_iff {a b : Span} :
    a < b ↔ a.line < b.line ∨ a.line = b.line ∧ a.column < b.column := by
  change a.lt b = true ↔ _
  simp [Span.lt]

theorem Span.ext_iff {a b : Span} : a = b ↔ a.line = b.line ∧ a.column = b.column := by
  cases a
  cases b
  simp

instance : IsStrictTotalOrder Span (· < ·) where
  trichotomous a b ab ba := by
    rw [Span.lt_iff, not_or, not_and] at ab ba
    have line : a.line = b.line := UInt32.le_antisymm (UInt32.not_lt.mp ba.1) (UInt32.not_lt.mp ab.1)
    exact Span.ext_iff.mpr ⟨line,
      UInt32.le_antisymm (UInt32.not_lt.mp (ba.2 line.symm)) (UInt32.not_lt.mp (ab.2 line))⟩
  irrefl a h := by
    rw [Span.lt_iff] at h
    obtain h | ⟨_, h⟩ := h <;> exact UInt32.lt_irrefl _ h
  trans a b c ab bc := by
    rw [Span.lt_iff] at ab bc ⊢
    obtain ab | ⟨same, ab⟩ := ab
    · obtain bc | ⟨same', _⟩ := bc
      · exact .inl (UInt32.lt_trans ab bc)
      · exact .inl (same' ▸ ab)
    · obtain bc | ⟨same', bc⟩ := bc
      · exact .inl (same ▸ bc)
      · exact .inr ⟨same.trans same', UInt32.lt_trans ab bc⟩

section Rows

variable {α κ : Type} (key : α → κ)

/-- A change that leaves a row under its key. -/
structure Stays (k : κ) (blank : α) (change : α → α) : Prop where
  blank : key blank = k
  change : ∀ r, key r = k → key (change r) = k

variable [DecidableEq κ]

/-- The row under a key. -/
def row? (k : κ) (rows : List α) : Option α := rows.find? (key · = k)

variable {key} {k : κ} {blank : α} {change : α → α} {rows : List α}

theorem row?_eq_none_iff : row? key k rows = none ↔ ∀ r ∈ rows, key r ≠ k := by
  simp [row?]

theorem key_of_row? {r : α} (h : row? key k rows = some r) : key r = k := by
  simpa using List.find?_some h

theorem mem_of_row? {r : α} (h : row? key k rows = some r) : r ∈ rows := List.mem_of_find?_eq_some h

theorem row?_cons {r : α} {rest : List α} :
    row? key k (r :: rest) = if key r = k then some r else row? key k rest := by
  by_cases same : key r = k <;> simp [row?, same]

variable [LT κ] [DecidableLT κ]

variable (key) in
/-- The keys of the rows increase. -/
def Ordered (rows : List α) : Prop := rows.Pairwise fun a b => key a < key b

variable (key) in
/-- Changes the row under a key. One that is not there starts as `blank`. -/
def upsert (k : κ) (blank : α) (change : α → α) : List α → List α
  | [] => [change blank]
  | r :: rest =>
    if k < key r then change blank :: r :: rest
    else if key r = k then change r :: rest
    else r :: upsert k blank change rest

theorem mem_upsert {r : α} (h : r ∈ upsert key k blank change rows) :
    r ∈ rows ∨ r = change blank ∨ ∃ r' ∈ rows, key r' = k ∧ r = change r' := by
  induction rows with
  | nil =>
    rw [upsert, List.mem_singleton] at h
    exact .inr (.inl h)
  | cons r' rest ih =>
    rw [upsert] at h
    split at h
    · obtain rfl | old := List.mem_cons.mp h
      · exact .inr (.inl rfl)
      · exact .inl old
    · split at h
      · next same =>
        obtain rfl | old := List.mem_cons.mp h
        · exact .inr (.inr ⟨r', List.mem_cons_self, same, rfl⟩)
        · exact .inl (List.mem_cons_of_mem _ old)
      · obtain rfl | onward := List.mem_cons.mp h
        · exact .inl List.mem_cons_self
        · obtain old | new | ⟨r'', mem, changed⟩ := ih onward
          · exact .inl (List.mem_cons_of_mem _ old)
          · exact .inr (.inl new)
          · exact .inr (.inr ⟨r'', List.mem_cons_of_mem _ mem, changed⟩)

variable [IsStrictTotalOrder κ (· < ·)]

omit [DecidableLT κ] in
/-- Rows whose keys come later are not under an earlier key. -/
theorem row?_eq_none_of_lt (h : ∀ r ∈ rows, k < key r) : row? key k rows = none := by
  refine row?_eq_none_iff.mpr fun r mem same => ?_
  exact irrefl (r := (· < ·)) k (same ▸ h r mem)

theorem Ordered.upsert (h : Ordered key rows) (stays : Stays key k blank change) :
    Ordered key (upsert key k blank change rows) := by
  induction rows with
  | nil => exact List.pairwise_singleton _ _
  | cons r rest ih =>
    obtain ⟨above, ordered⟩ := List.pairwise_cons.mp h
    rw [Coverage.upsert]
    split
    · next before =>
      refine List.pairwise_cons.mpr ⟨fun r' mem => ?_, h⟩
      rw [stays.change blank stays.blank]
      obtain rfl | mem := List.mem_cons.mp mem
      · exact before
      · exact trans_of (· < ·) before (above r' mem)
    · next not_before =>
      split
      · next same =>
        refine List.pairwise_cons.mpr ⟨fun r' mem => ?_, ordered⟩
        rw [stays.change r same, ← same]
        exact above r' mem
      · next other =>
        have after : key r < k := by
          obtain before | same | after := trichotomous_of (· < ·) k (key r)
          · exact absurd before not_before
          · exact absurd same.symm other
          · exact after
        refine List.pairwise_cons.mpr ⟨fun r' mem => ?_, ih ordered⟩
        obtain old | rfl | ⟨r'', mem, same, rfl⟩ := mem_upsert mem
        · exact above r' old
        · rwa [stays.change blank stays.blank]
        · rwa [stays.change r'' same]

/-- What is found after a change. -/
theorem row?_upsert (h : Ordered key rows) (stays : Stays key k blank change) (j : κ) :
    row? key j (Coverage.upsert key k blank change rows) =
      if j = k then some (change ((row? key k rows).getD blank)) else row? key j rows := by
  induction rows with
  | nil =>
    have new := stays.change blank stays.blank
    by_cases same : j = k
    · simp [Coverage.upsert, row?, new, same]
    · simp [Coverage.upsert, row?, new, same, Ne.symm same]
  | cons r rest ih =>
    obtain ⟨above, ordered⟩ := List.pairwise_cons.mp h
    rw [Coverage.upsert]
    split
    · next before =>
      have absent : row? key k (r :: rest) = none := by
        refine row?_eq_none_of_lt fun r' mem => ?_
        obtain rfl | mem := List.mem_cons.mp mem
        · exact before
        · exact trans_of (· < ·) before (above r' mem)
      rw [absent, row?_cons, stays.change blank stays.blank]
      simp [eq_comm]
    · split
      · next same =>
        rw [row?_cons, row?_cons, row?_cons, stays.change r same, same]
        by_cases here : j = k
        · simp [here]
        · simp [here, Ne.symm here]
      · next other =>
        rw [row?_cons, row?_cons, row?_cons, ih ordered, if_neg other]
        by_cases here : key r = j
        · subst here
          simp [other]
        · simp [here]

omit [DecidableLT κ] in
theorem Ordered.row?_eq_some_iff (h : Ordered key rows) {r : α} :
    row? key k rows = some r ↔ r ∈ rows ∧ key r = k := by
  refine ⟨fun found => ⟨mem_of_row? found, key_of_row? found⟩, fun ⟨mem, same⟩ => ?_⟩
  induction rows with
  | nil => cases mem
  | cons r' rest ih =>
    obtain ⟨above, ordered⟩ := List.pairwise_cons.mp h
    rw [row?_cons]
    obtain rfl | later := List.mem_cons.mp mem
    · rw [if_pos same]
    · have before : key r' < k := same ▸ above r later
      have other : key r' ≠ k := fun equal => irrefl (r := (· < ·)) k (equal ▸ before)
      rw [if_neg other]
      exact ih ordered ⟨later, same⟩ later

omit [DecidableLT κ] in
/-- No more than one row is under a key. -/
theorem Ordered.filter_eq (h : Ordered key rows) :
    rows.filter (key · = k) = (row? key k rows).toList := by
  induction rows with
  | nil => rfl
  | cons r rest ih =>
    obtain ⟨above, ordered⟩ := List.pairwise_cons.mp h
    rw [row?_cons]
    by_cases same : key r = k
    · have others : row? key k rest = none := row?_eq_none_of_lt fun r' mem => same ▸ above r' mem
      rw [List.filter_cons_of_pos (by simpa using same), if_pos same, ih ordered, others]
      rfl
    · rw [List.filter_cons_of_neg (by simpa using same), if_neg same, ih ordered]

omit [DecidableLT κ] in
/-- Two tables in order are one if the same is found in both. -/
theorem Ordered.ext {rows' : List α} (h : Ordered key rows) (h' : Ordered key rows')
    (same : ∀ k, row? key k rows = row? key k rows') : rows = rows' := by
  have mem_iff : ∀ r, r ∈ rows ↔ r ∈ rows' := by
    intro r
    have found := same (key r)
    constructor
    · intro mem
      exact (h'.row?_eq_some_iff.mp (found ▸ h.row?_eq_some_iff.mpr ⟨mem, rfl⟩)).1
    · intro mem
      exact (h.row?_eq_some_iff.mp (found ▸ h'.row?_eq_some_iff.mpr ⟨mem, rfl⟩)).1
  have once : ∀ {rows : List α}, Ordered key rows → rows.Nodup := by
    intro rows ordered
    refine ordered.imp fun {a b} lt same => ?_
    subst same
    exact irrefl (r := (· < ·)) _ lt
  refine List.Perm.eq_of_pairwise (fun a b _ _ ab ba => ?_) h h'
    ((List.perm_ext_iff_of_nodup (once h) (once h')).mpr mem_iff)
  exact absurd (trans_of (· < ·) ab ba) (irrefl (r := (· < ·)) _)

/-- Seen from a key, the rows before it are on one side and those after it on the other. -/
theorem Ordered.sides (h : Ordered key rows) (k : κ) :
    rows.Pairwise fun a b =>
      compareOfLessAndEq (key a) k ≠ .lt → compareOfLessAndEq (key b) k = .gt := by
  refine h.imp fun {a b} lt not_before => ?_
  have reached : ¬key a < k := fun before => not_before (by simp [compareOfLessAndEq, before])
  have past : k < key b := by
    obtain before | same | after := trichotomous_of (· < ·) (key a) k
    · exact absurd before reached
    · exact same ▸ lt
    · exact trans_of (· < ·) after lt
  have not_lt : ¬key b < k := fun before => irrefl (r := (· < ·)) _ (trans_of (· < ·) past before)
  have not_eq : key b ≠ k := fun same => irrefl (r := (· < ·)) k (same ▸ past)
  simp [compareOfLessAndEq, not_lt, not_eq]

theorem compare_eq_iff {j k : κ} :
    compareOfLessAndEq j k = .eq ↔ j = k := by
  unfold compareOfLessAndEq
  split
  · next before =>
    refine ⟨fun h => ?_, fun same => ?_⟩
    · cases h
    · exact absurd (same ▸ before) (irrefl (r := (· < ·)) k)
  · split <;> simp_all

end Rows

section Halving

variable {α : Type} {side : α → Ordering}

theorem narrow_sublist (side : α → Ordering) (rounds : Nat) (xs : List α) : (narrow side rounds xs).Sublist xs := by
  induction rounds generalizing xs with
  | zero => exact List.Sublist.refl xs
  | succ rounds ih =>
    rw [narrow]
    split
    · exact List.Sublist.refl xs
    · simp only
      split
      · exact (ih _).trans (List.take_sublist _ xs)
      · exact (ih _).trans (List.drop_sublist _ xs)

/-- Each round takes something away. -/
theorem narrow_length (side : α → Ordering) {rounds : Nat} {xs : List α} (h : xs.length ≤ rounds + 1) :
    (narrow side rounds xs).length ≤ 1 := by
  induction rounds generalizing xs with
  | zero => simpa [narrow] using h
  | succ rounds ih =>
    rw [narrow]
    split
    · assumption
    · have half : 1 ≤ xs.length / 2 := by omega
      simp only
      split
      · exact ih (by rw [List.length_take]; omega)
      · exact ih (by rw [List.length_drop]; omega)

/-- Halving keeps the element that is looked for: those on the far side of the middle are left out,
and it is not one of them. -/
theorem mem_narrow (rounds : Nat) {xs : List α} {x : α}
    (sides : xs.Pairwise fun a b => side a ≠ .lt → side b = .gt) (mem : x ∈ xs)
    (found : side x = .eq) : x ∈ narrow side rounds xs := by
  induction rounds generalizing xs with
  | zero => exact mem
  | succ rounds ih =>
    rw [narrow]
    split
    · exact mem
    next long =>
    have inside : xs.length / 2 < xs.length := by omega
    obtain ⟨i, bound, here⟩ := List.getElem_of_mem mem
    have order := List.pairwise_iff_getElem.mp sides
    simp only [List.getElem?_eq_getElem inside, Option.map_some, Option.some.injEq]
    split
    · next above =>
      have before : i < xs.length - xs.length / 2 := by
        by_contra after
        have far : xs.length / 2 ≤ i := by omega
        obtain same | later := Nat.eq_or_lt_of_le far
        · subst same
          rw [here, found] at above
          cases above
        · have past := order _ i inside bound later (by rw [above]; decide)
          rw [here, found] at past
          cases past
      refine ih (sides.sublist (List.take_sublist _ xs)) ?_
      exact List.mem_take_iff_getElem.mpr ⟨i, by omega, here⟩
    · next not_above =>
      have after : xs.length / 2 ≤ i := by
        by_contra before
        exact not_above (order i _ bound inside (by omega) (by rw [here, found]; decide))
      refine ih (sides.sublist (List.drop_sublist _ xs)) ?_
      refine List.mem_drop_iff_getElem.mpr ⟨i - xs.length / 2, by omega, ?_⟩
      simp only [Nat.add_sub_cancel' after, here]

/-- Halving finds what is there. -/
theorem bisect_eq_some_iff {xs : List α} {x : α}
    (sides : xs.Pairwise fun a b => side a ≠ .lt → side b = .gt) :
    bisect side xs = some x ↔ x ∈ xs ∧ side x = .eq := by
  have short := narrow_length side (Nat.le_add_right xs.length 1)
  have known := narrow_sublist side xs.length xs
  constructor
  · intro h
    rw [bisect, Option.filter_eq_some_iff] at h
    obtain ⟨first, found⟩ := h
    exact ⟨known.subset (List.mem_of_head? first), by simpa using found⟩
  · rintro ⟨mem, found⟩
    have left := mem_narrow xs.length sides mem found
    have single : narrow side xs.length xs = [x] := by
      generalize narrow side xs.length xs = ys at short left
      match ys with
      | [] => cases left
      | [y] => rw [List.mem_singleton.mp left]
      | _ :: _ :: _ => simp at short
    simp [bisect, single, found]

end Halving

/-- Halving finds the row under a key. -/
theorem Ordered.bisect {α κ : Type} [LT κ] [DecidableEq κ] [DecidableLT κ]
    [IsStrictTotalOrder κ (· < ·)] {key : α → κ} {rows : List α} (h : Ordered key rows) (k : κ) :
    bisect (fun r => compareOfLessAndEq (key r) k) rows = row? key k rows := by
  ext r
  rw [bisect_eq_some_iff (h.sides k), h.row?_eq_some_iff, compare_eq_iff]

theorem unitOf_eq (unit : String) (units : List UnitHits) :
    unitOf unit units = row? (·.unit) unit units := rfl

theorem hitsOf_eq (span : Span) (spans : List SpanHits) :
    hitsOf span spans = (row? (·.span) span spans).map (·.hits) := rfl

theorem updateUnit_eq (blank : UnitHits) (change : UnitHits → UnitHits) (units : List UnitHits) :
    updateUnit blank change units = upsert (·.unit) blank.unit blank change units := by
  induction units with
  | nil => rfl
  | cons u rest ih => rw [updateUnit, upsert, ih]

theorem updateUnit_ne_nil (blank : UnitHits) (change : UnitHits → UnitHits) (units : List UnitHits) :
    updateUnit blank change units ≠ [] := by
  cases units with
  | nil => exact List.cons_ne_nil _ _
  | cons u rest =>
    rw [updateUnit]
    split
    · exact List.cons_ne_nil _ _
    · split <;> exact List.cons_ne_nil _ _

theorem Ordered.updateUnit {units : List UnitHits} (h : Ordered UnitHits.unit units)
    {blank : UnitHits} {change : UnitHits → UnitHits} (keeps : ∀ u, (change u).unit = u.unit) :
    Ordered UnitHits.unit (Coverage.updateUnit blank change units) := by
  rw [updateUnit_eq]
  exact h.upsert ⟨rfl, fun u same => (keeps u).trans same⟩

/-- What is found after a unit was changed under its name. -/
theorem unitOf_updateUnit {units : List UnitHits} (h : Ordered UnitHits.unit units)
    (blank : UnitHits) {change : UnitHits → UnitHits} (keeps : ∀ u, (change u).unit = u.unit)
    (name : String) : unitOf name (updateUnit blank change units) =
      if name = blank.unit then some (change ((unitOf blank.unit units).getD blank))
      else unitOf name units := by
  rw [updateUnit_eq]
  exact row?_upsert h ⟨rfl, fun u same => (keeps u).trans same⟩ name

/-- A change is known from what it does to the unit that it is made for. -/
theorem updateUnit_congr {units : List UnitHits} (h : Ordered UnitHits.unit units)
    {blank blank' : UnitHits} {change change' : UnitHits → UnitHits}
    (keeps : ∀ u, (change u).unit = u.unit) (keeps' : ∀ u, (change' u).unit = u.unit)
    (same : blank.unit = blank'.unit)
    (changes : change ((unitOf blank.unit units).getD blank) =
      change' ((unitOf blank'.unit units).getD blank')) :
    updateUnit blank change units = updateUnit blank' change' units := by
  refine (h.updateUnit keeps).ext (h.updateUnit keeps') fun name => ?_
  rw [← unitOf_eq, ← unitOf_eq, unitOf_updateUnit h blank keeps, unitOf_updateUnit h blank' keeps', changes, same]

theorem bump_eq (change : UInt64 → UInt64) (span : Span) (spans : List SpanHits) :
    bump change span spans =
      upsert (·.span) span ⟨span, 0⟩ (fun s => ⟨s.span, change s.hits⟩) spans := by
  induction spans with
  | nil => rfl
  | cons s rest ih =>
    rw [bump, upsert, ih]
    split
    · rfl
    · split
      · next same => rw [same]
      · rfl

theorem bump_stays (change : UInt64 → UInt64) (span : Span) :
    Stays SpanHits.span span ⟨span, 0⟩ fun s => ⟨s.span, change s.hits⟩ := ⟨rfl, fun _ same => same⟩

theorem Ordered.bump {spans : List SpanHits} (h : Ordered SpanHits.span spans)
    (change : UInt64 → UInt64) (span : Span) :
    Ordered SpanHits.span (Coverage.bump change span spans) := by
  rw [bump_eq]
  exact h.upsert (bump_stays change span)

theorem hitsOf_bump {spans : List SpanHits} (h : Ordered SpanHits.span spans)
    (change : UInt64 → UInt64) (span at' : Span) :
    hitsOf at' (bump change span spans) =
      if at' = span then some (change ((hitsOf span spans).getD 0)) else hitsOf at' spans := by
  rw [bump_eq, hitsOf_eq, row?_upsert h (bump_stays change span), hitsOf_eq, hitsOf_eq]
  split
  · cases row? SpanHits.span span spans <;> rfl
  · rfl

/-- Counts of spans in order are known from what is found in them. -/
theorem Ordered.ext_hits {spans spans' : List SpanHits} (h : Ordered SpanHits.span spans)
    (h' : Ordered SpanHits.span spans') (same : ∀ span, hitsOf span spans = hitsOf span spans') :
    spans = spans' := by
  refine h.ext h' fun span => ?_
  have counts := same span
  rw [hitsOf_eq, hitsOf_eq] at counts
  cases found : row? SpanHits.span span spans with
  | none =>
    rw [found, Option.map_none, eq_comm, Option.map_eq_none_iff] at counts
    exact counts.symm
  | some s =>
    rw [found, Option.map_some, eq_comm, Option.map_eq_some_iff] at counts
    obtain ⟨s', found', hits⟩ := counts
    have place : s'.span = s.span := (key_of_row? found').trans (key_of_row? found).symm
    rw [found']
    cases s
    cases s'
    cases place
    cases hits
    rfl

/-- A change of counts is known from what it does to the count that it is made for. -/
theorem Ordered.bump_congr {spans : List SpanHits} (h : Ordered SpanHits.span spans) {span : Span}
    (change change' : UInt64 → UInt64)
    (changes : change ((hitsOf span spans).getD 0) = change' ((hitsOf span spans).getD 0)) :
    Coverage.bump change span spans = Coverage.bump change' span spans := by
  refine (h.bump change span).ext_hits (h.bump change' span) fun at' => ?_
  rw [hitsOf_bump h, hitsOf_bump h, changes]

end ModuleSystem.Coverage
