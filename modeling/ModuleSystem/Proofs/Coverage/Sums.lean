import ModuleSystem.Proofs.Coverage.Tables

namespace ModuleSystem.Coverage

/-- A number as a count. The largest count stands for all numbers past it. -/
def saturated (n : Nat) : UInt64 := .ofNat (min n (UInt64.size - 1))

theorem saturated_toNat (n : Nat) : (saturated n).toNat = min n (UInt64.size - 1) := by
  rw [saturated, UInt64.toNat_ofNat']
  refine Nat.mod_eq_of_lt ?_
  have : UInt64.size = 2 ^ 64 := rfl
  omega

theorem saturatingAdd_saturated (n : Nat) (hits : UInt64) :
    UnitHits.saturatingAdd (saturated n) hits = saturated (n + hits.toNat) := by
  rw [UnitHits.saturatingAdd, saturated_toNat, saturated]
  congr 1
  omega

/-- All the hits that a list of counts has for a span. -/
def total (span : Span) (listed : List SpanHits) : Nat :=
  ((listed.filter (·.span = span)).map (·.hits.toNat)).sum

/-- What a span counts for in the sum of a list of counts: nothing at all if it is not listed. -/
def tally (span : Span) (listed : List SpanHits) : Option UInt64 :=
  if ∃ s ∈ listed, s.span = span then some (saturated (total span listed)) else none

theorem total_append (span : Span) (listed more : List SpanHits) :
    total span (listed ++ more) = total span listed + total span more := by
  simp [total]

theorem total_of_unlisted {span : Span} {listed : List SpanHits}
    (h : ¬∃ s ∈ listed, s.span = span) : total span listed = 0 := by
  have none : listed.filter (·.span = span) = [] := by
    refine List.filter_eq_nil_iff.mpr fun s mem same => h ⟨s, mem, by simpa using same⟩
  rw [total, none]
  rfl

theorem total_of_zero {span : Span} {listed : List SpanHits} (h : ∀ s ∈ listed, s.hits = 0) :
    total span listed = 0 := by
  refine List.sum_eq_zero fun n mem => ?_
  obtain ⟨s, kept, rfl⟩ := List.mem_map.mp mem
  rw [h s (List.mem_of_mem_filter kept)]
  rfl

theorem tally_perm {span : Span} {listed listed' : List SpanHits} (h : listed.Perm listed') :
    tally span listed = tally span listed' := by
  have sums : total span listed = total span listed' := ((h.filter _).map _).sum_eq
  have mem_iff : (∃ s ∈ listed, s.span = span) ↔ ∃ s ∈ listed', s.span = span := by
    simp only [h.mem_iff]
  simp only [tally, sums, mem_iff]

theorem tally_getD (span : Span) (listed : List SpanHits) :
    (tally span listed).getD 0 = saturated (total span listed) := by
  unfold tally
  split
  · rfl
  · next unlisted =>
    rw [total_of_unlisted unlisted]
    rfl

/-- A table of spans in order that gives each span its part of the sum of a list of counts. -/
structure IsSum (listed spans : List SpanHits) : Prop where
  ordered : Ordered SpanHits.span spans
  counts : ∀ span, hitsOf span spans = tally span listed

namespace IsSum

variable {listed spans : List SpanHits}

theorem nil : IsSum [] [] := ⟨List.Pairwise.nil, fun _ => rfl⟩

theorem bump (h : IsSum listed spans) (s : SpanHits) :
    IsSum (listed ++ [s]) (bump (UnitHits.saturatingAdd · s.hits) s.span spans) := by
  refine ⟨h.ordered.bump _ _, fun span => ?_⟩
  rw [hitsOf_bump h.ordered, h.counts]
  by_cases here : span = s.span
  · subst here
    have now : ∃ s' ∈ listed ++ [s], s'.span = s.span := ⟨s, by simp, rfl⟩
    have one : total s.span [s] = s.hits.toNat := by simp [total]
    rw [if_pos rfl, tally_getD, saturatingAdd_saturated, tally, if_pos now, total_append, one]
  · have absent : ¬∃ s' ∈ [s], s'.span = span := by simp [Ne.symm here]
    have mem_iff : (∃ s' ∈ listed ++ [s], s'.span = span) ↔ ∃ s' ∈ listed, s'.span = span := by
      simp [or_and_right, exists_or, Ne.symm here]
    simp only [if_neg here, h.counts, tally, mem_iff, total_append, total_of_unlisted absent,
      Nat.add_zero]

theorem addSpans {u : UnitHits} (h : IsSum listed u.spans) (more : List SpanHits) :
    IsSum (listed ++ more) (u.addSpans more).spans := by
  unfold UnitHits.addSpans
  simp only
  generalize u.spans = spans at h
  induction more generalizing listed spans with
  | nil => simpa using h
  | cons s rest ih =>
    rw [List.foldl_cons, ← List.singleton_append (l := rest), ← List.append_assoc]
    exact ih _ (h.bump s)

/-- A span is in the table if it is listed. -/
theorem mem_iff (h : IsSum listed spans) {span : Span} {hits : UInt64} :
    ⟨span, hits⟩ ∈ spans ↔ hitsOf span spans = some hits := by
  rw [hitsOf_eq, Option.map_eq_some_iff]
  constructor
  · intro mem
    exact ⟨⟨span, hits⟩, h.ordered.row?_eq_some_iff.mpr ⟨mem, rfl⟩, rfl⟩
  · rintro ⟨⟨span', hits'⟩, found, rfl⟩
    obtain ⟨mem, rfl⟩ := h.ordered.row?_eq_some_iff.mp found
    exact mem

end IsSum

/-- Whether an entry counts for a unit. Each is judged by its own kind. -/
def concerns (scope : Option Scope) (name unit : String) (kind : UnitKind) : Bool :=
  unit = name && inScope scope unit kind

/-- The entries that count for a unit. -/
def shares (scope : Option Scope) (name : String) (entries : List UnitHits) : List UnitHits :=
  entries.filter fun u => concerns scope name u.unit u.kind

/-- The counts that the entries in scope list for a unit. -/
def listing (scope : Option Scope) (name : String) (entries : List UnitHits) : List SpanHits :=
  (shares scope name entries).flatMap (·.spans)

theorem mem_listing {scope : Option Scope} {name : String} {entries : List UnitHits} {s : SpanHits} :
    s ∈ listing scope name entries ↔
      ∃ u ∈ entries, (u.unit = name ∧ inScope scope u.unit u.kind = true) ∧ s ∈ u.spans := by
  simp [listing, shares, concerns, and_assoc]

theorem listing_append (scope : Option Scope) (name : String) (entries more : List UnitHits) :
    listing scope name (entries ++ more) = listing scope name entries ++ listing scope name more := by
  rw [listing, shares, List.filter_append, List.flatMap_append]
  rfl

/-- A table of units in order that sums up entries. -/
structure UnitsSum (scope : Option Scope) (entries units : List UnitHits) : Prop where
  ordered : Ordered UnitHits.unit units
  reported : ∀ name, (unitOf name units).isSome = true ↔ shares scope name entries ≠ []
  counted : ∀ name u, unitOf name units = some u → IsSum (listing scope name entries) u.spans

/-- What adding an entry does to the unit of its name. -/
def gather (entry sum : UnitHits) : UnitHits := (sum.learnSource entry.source).addSpans entry.spans

theorem gather_unit (entry sum : UnitHits) : (gather entry sum).unit = sum.unit := by
  unfold gather UnitHits.addSpans UnitHits.learnSource
  split <;> rfl

theorem gather_kind (entry sum : UnitHits) : (gather entry sum).kind = sum.kind := by
  unfold gather UnitHits.addSpans UnitHits.learnSource
  split <;> rfl

theorem IsSum.gather {listed : List SpanHits} {sum : UnitHits} (h : IsSum listed sum.spans)
    (entry : UnitHits) : IsSum (listed ++ entry.spans) (gather entry sum).spans := by
  refine IsSum.addSpans ?_ entry.spans
  unfold UnitHits.learnSource
  split <;> exact h

theorem concerns_iff {scope : Option Scope} {name unit : String} {kind : UnitKind} :
    concerns scope name unit kind = true ↔ unit = name ∧ inScope scope unit kind = true := by
  simp [concerns]

theorem shares_append (scope : Option Scope) (name : String) (entries : List UnitHits)
    (u : UnitHits) : shares scope name (entries ++ [u]) =
      shares scope name entries ++ if concerns scope name u.unit u.kind then [u] else [] := by
  rw [shares, List.filter_append, List.filter_singleton, Bool.cond_eq_ite]
  rfl

/-- A unit has its name and kind from one of the entries. -/
theorem origin_of_addUnits {scope : Option Scope} {entries : List UnitHits} {u : UnitHits}
    (mem : u ∈ entries.foldl (Report.addUnit scope) []) :
    ∃ e ∈ entries, e.unit = u.unit ∧ e.kind = u.kind := by
  induction entries using List.reverseRecOn generalizing u with
  | nil => cases mem
  | append_singleton entries e ih =>
    have last : ∀ u ∈ entries.foldl (Report.addUnit scope) [],
        ∃ e' ∈ entries ++ [e], e'.unit = u.unit ∧ e'.kind = u.kind := by
      intro u old
      obtain ⟨e', mem, same⟩ := ih old
      exact ⟨e', List.mem_append_left _ mem, same⟩
    let blank : UnitHits := ⟨e.unit, e.kind, "", []⟩
    rw [List.foldl_append, List.foldl_cons, List.foldl_nil, Report.addUnit] at mem
    split at mem
    · rw [updateUnit_eq] at mem
      obtain old | rfl | ⟨u', old, _, rfl⟩ := mem_upsert mem
      · exact last u old
      · exact ⟨e, by simp, (gather_unit e blank).symm, (gather_kind e blank).symm⟩
      · obtain ⟨e', mem, unit, kind⟩ := last u' old
        exact ⟨e', mem, unit.trans (gather_unit e u').symm, kind.trans (gather_kind e u').symm⟩
    · exact last u mem

namespace UnitsSum

variable {scope : Option Scope} {entries units : List UnitHits}

theorem nil (scope : Option Scope) : UnitsSum scope [] [] := by
  refine ⟨List.Pairwise.nil, fun name => ?_, fun name u found => ?_⟩
  · simp [unitOf, shares]
  · cases found

/-- What a unit had listed so far, also if there is no such unit yet. -/
theorem so_far (h : UnitsSum scope entries units) (blank : UnitHits) (empty : blank.spans = []) :
    IsSum (listing scope blank.unit entries) ((unitOf blank.unit units).getD blank).spans := by
  cases found : unitOf blank.unit units with
  | some u => exact h.counted _ u found
  | none =>
    have none : shares scope blank.unit entries = [] := by
      by_contra some
      simpa [found] using (h.reported blank.unit).mpr some
    rw [listing, none, Option.getD_none, empty]
    exact IsSum.nil

theorem addUnit (h : UnitsSum scope entries units) (u : UnitHits) :
    UnitsSum scope (entries ++ [u]) (Report.addUnit scope units u) := by
  unfold Report.addUnit
  split
  · next inside =>
    have found := unitOf_updateUnit h.ordered ⟨u.unit, u.kind, "", []⟩ (gather_unit u)
    change UnitsSum scope (entries ++ [u]) (updateUnit ⟨u.unit, u.kind, "", []⟩ (gather u) units)
    refine ⟨h.ordered.updateUnit (gather_unit u), fun name => ?_, fun name sum here => ?_⟩
    · rw [found, shares_append]
      by_cases mine : name = u.unit
      · simp [mine, concerns_iff, inside]
      · simpa [mine, concerns_iff, Ne.symm mine] using h.reported name
    · rw [found] at here
      rw [listing, shares_append]
      by_cases mine : name = u.unit
      · subst mine
        rw [if_pos rfl, Option.some.injEq] at here
        subst here
        rw [if_pos (concerns_iff.mpr ⟨rfl, inside⟩), List.flatMap_append, List.flatMap_singleton]
        exact (h.so_far ⟨u.unit, u.kind, "", []⟩ rfl).gather u
      · rw [if_neg mine] at here
        rw [if_neg fun mine' => mine (concerns_iff.mp mine').1.symm, List.append_nil]
        exact h.counted name sum here
  · next outside =>
    have none : ∀ name, shares scope name (entries ++ [u]) = shares scope name entries := by
      intro name
      rw [shares_append, if_neg fun both => outside (concerns_iff.mp both).2, List.append_nil]
    refine ⟨h.ordered, fun name => ?_, fun name sum here => ?_⟩
    · rw [none]
      exact h.reported name
    · rw [listing, none]
      exact h.counted name sum here

theorem addUnits (h : UnitsSum scope entries units) (more : List UnitHits) :
    UnitsSum scope (entries ++ more) (more.foldl (Report.addUnit scope) units) := by
  induction more generalizing entries units with
  | nil => simpa using h
  | cons u rest ih =>
    rw [List.foldl_cons, ← List.singleton_append (l := rest), ← List.append_assoc]
    exact ih (h.addUnit u)

theorem mem_iff (h : UnitsSum scope entries units) {name : String} {u : UnitHits} :
    unitOf name units = some u ↔ u ∈ units ∧ u.unit = name :=
  h.ordered.row?_eq_some_iff

/-- Each unit of the table is the sum of what is listed for it. -/
theorem isSum (h : UnitsSum scope entries units) {u : UnitHits} (mem : u ∈ units) :
    IsSum (listing scope u.unit entries) u.spans :=
  h.counted u.unit u (h.mem_iff.mpr ⟨mem, rfl⟩)

/-- The count of a span, whether or not its unit is there. -/
theorem hits (h : UnitsSum scope entries units) (name : String) (span : Span) :
    ((unitOf name units).bind fun u => hitsOf span u.spans) =
      tally span (listing scope name entries) := by
  cases found : unitOf name units with
  | some u => exact (h.counted name u found).counts span
  | none =>
    have none : shares scope name entries = [] := by
      by_contra some
      simpa [found] using (h.reported name).mpr some
    rw [listing, none]
    rfl

end UnitsSum

/-- An entry but for the place of its source, and without the order of its spans. -/
def UnitHits.content (u : UnitHits) : String × UnitKind × Multiset SpanHits :=
  (u.unit, u.kind, u.spans)

/-- The names, spans and counts of a table of units. -/
def figures (units : List UnitHits) : List (String × List SpanHits) :=
  units.map fun u => (u.unit, u.spans)

theorem shares_ne_nil_iff {scope : Option Scope} {name : String} {entries : List UnitHits} :
    shares scope name entries ≠ [] ↔
      ∃ u ∈ entries, u.unit = name ∧ inScope scope u.unit u.kind = true := by
  rw [shares, Ne, List.filter_eq_nil_iff]
  simp [concerns_iff]

theorem listing_eq_bind (scope : Option Scope) (name : String) (entries : List UnitHits) :
    (listing scope name entries : Multiset SpanHits) =
      ((entries.map UnitHits.content : Multiset (String × UnitKind × Multiset SpanHits)).filter
        fun c => concerns scope name c.1 c.2.1 = true).bind (·.2.2) := by
  induction entries with
  | nil => rfl
  | cons u rest ih =>
    rw [listing, shares, List.map_cons, ← Multiset.cons_coe, List.filter_cons]
    by_cases mine : concerns scope name u.unit u.kind = true
    · have kept : concerns scope name u.content.1 u.content.2.1 = true := mine
      rw [if_pos mine, List.flatMap_cons, ← Multiset.coe_add, Multiset.filter_cons, if_pos kept,
        Multiset.add_bind, Multiset.singleton_bind, ← ih]
      rfl
    · have left : ¬concerns scope name u.content.1 u.content.2.1 = true := mine
      rw [if_neg mine, Multiset.filter_cons, if_neg left, zero_add, ← ih]
      rfl

variable {scope : Option Scope} {entries entries' units units' : List UnitHits}

/-- What is listed depends on the entries, but not on their order, nor on that of their spans. -/
theorem listing_perm (same : (entries.map (·.content)).Perm (entries'.map (·.content)))
    (name : String) : (listing scope name entries).Perm (listing scope name entries') := by
  rw [← Multiset.coe_eq_coe, listing_eq_bind, listing_eq_bind, Multiset.coe_eq_coe.mpr same]

theorem shares_ne_nil_of_perm (same : (entries.map (·.content)).Perm (entries'.map (·.content)))
    {name : String} (h : shares scope name entries ≠ []) : shares scope name entries' ≠ [] := by
  obtain ⟨u, mem, rfl, inside⟩ := shares_ne_nil_iff.mp h
  obtain ⟨u', mem', equal⟩ := List.mem_map.mp (same.mem_iff.mp (List.mem_map_of_mem mem))
  obtain ⟨name, kind, _⟩ : u'.unit = u.unit ∧ u'.kind = u.kind ∧ _ := by
    simpa [UnitHits.content] using equal
  exact shares_ne_nil_iff.mpr ⟨u', mem', name, by rw [name, kind]; exact inside⟩

theorem IsSum.perm {listed listed' spans : List SpanHits} (h : IsSum listed spans)
    (same : listed.Perm listed') : IsSum listed' spans :=
  ⟨h.ordered, fun span => (h.counts span).trans (tally_perm same)⟩

/-- A sum of entries is the sum of the same entries in another order. -/
theorem UnitsSum.perm (h : UnitsSum scope entries units)
    (same : (entries.map (·.content)).Perm (entries'.map (·.content))) :
    UnitsSum scope entries' units := by
  refine ⟨h.ordered, fun name => (h.reported name).trans ?_, fun name u found => ?_⟩
  · exact ⟨shares_ne_nil_of_perm same, shares_ne_nil_of_perm same.symm⟩
  · exact (h.counted name u found).perm (listing_perm same name)

theorem row?_figures (name : String) (units : List UnitHits) :
    row? Prod.fst name (figures units) = (unitOf name units).map fun u => (u.unit, u.spans) := by
  induction units with
  | nil => rfl
  | cons u rest ih =>
    rw [figures, List.map_cons, row?_cons, unitOf_eq, row?_cons]
    split
    · rfl
    · exact ih

theorem UnitsSum.figures_ordered (h : UnitsSum scope entries units) :
    Ordered Prod.fst (figures units) := List.pairwise_map.mpr h.ordered

/-- The figures of a sum do not tell in which order the entries came. -/
theorem UnitsSum.figures_eq (h : UnitsSum scope entries units)
    (h' : UnitsSum scope entries' units')
    (same : (entries.map (·.content)).Perm (entries'.map (·.content))) :
    figures units = figures units' := by
  refine h.figures_ordered.ext h'.figures_ordered fun name => ?_
  rw [row?_figures, row?_figures]
  cases found : unitOf name units with
  | none =>
    have absent : unitOf name units' = none := by
      by_contra present
      have shared := (h'.reported name).mp (Option.isSome_iff_ne_none.mpr present)
      have shared := (h.reported name).mpr (shares_ne_nil_of_perm same.symm shared)
      simp [found] at shared
    rw [absent]
  | some u =>
    have shared := (h.reported name).mp (by rw [found]; rfl)
    obtain ⟨u', found'⟩ :=
      Option.isSome_iff_exists.mp ((h'.reported name).mpr (shares_ne_nil_of_perm same shared))
    have sum := h.counted name u found
    have sum' := h'.counted name u' found'
    have spans : u.spans = u'.spans := by
      refine sum.ordered.ext_hits sum'.ordered fun span => ?_
      rw [sum.counts, sum'.counts, tally_perm (listing_perm same name)]
    have names : u.unit = u'.unit := (h.mem_iff.mp found).2.trans (h'.mem_iff.mp found').2.symm
    rw [found', Option.map_some, Option.map_some, spans, names]

end ModuleSystem.Coverage
