import ModuleSystem.Loading.Recorder
import ModuleSystem.Proofs.Coverage.Sums

/-! A call to a recording session does to its table of units what a hit file with one entry does to
a merge, as long as no counter is full. So the table of a session is the sum of the calls that it
got, and a merge of such tables is the sum of all calls. -/

namespace ModuleSystem

open Coverage

namespace RecorderCall

/-- The unit that a call is about. -/
def unit : RecorderCall → String
  | .instrument unit _ _ _ => unit
  | .record unit _ => unit

/-- The spans that a call makes known. -/
def spans : RecorderCall → List Span
  | .instrument _ _ _ spans => spans
  | .record _ span => [span]

/-- A call as an entry of a hit file. -/
def entry : RecorderCall → UnitHits
  | .instrument unit kind source spans => ⟨unit, kind, source, spans.map (⟨·, 0⟩)⟩
  | .record unit span => ⟨unit, .module, "", [⟨span, 1⟩]⟩

theorem entry_unit (call : RecorderCall) : call.entry.unit = call.unit := by
  cases call <;> rfl

theorem entry_spans (call : RecorderCall) : call.entry.spans.map (·.span) = call.spans := by
  cases call with
  | instrument unit kind source spans => simp [entry, RecorderCall.spans, Function.comp_def]
  | record unit span => rfl

end RecorderCall

namespace Coverage

/-- A session that gets a call. -/
def Session.hear (s : Session) : RecorderCall → Session
  | .instrument unit kind source spans => s.instrument unit kind source spans
  | .record unit span => s.record unit span

/-- What a call does to a table of units when nothing limits the scope. -/
def hear (units : List UnitHits) : RecorderCall → List UnitHits
  | .instrument unit kind source spans =>
    updateUnit ⟨unit, kind, source, []⟩ (fun u => (u.learnSource source).track spans) units
  | .record unit span => updateUnit ⟨unit, .module, "", []⟩ (·.hit span) units

/-- The table of units after some calls. -/
def tableOf (calls : List RecorderCall) : List UnitHits := calls.foldl hear []

theorem Session.hear_eq {s : Session} (unlimited : s.scope = none) (call : RecorderCall) :
    s.hear call = { s with units := Coverage.hear s.units call, dirty := true } := by
  cases call <;> simp [Session.hear, Session.instrument, Session.record, Session.update, unlimited,
    inScope, Coverage.hear]

namespace UnitHits

theorem saturatingAdd_zero (hits : UInt64) : saturatingAdd hits 0 = hits := by
  rw [saturatingAdd, UInt64.toNat_zero, Nat.add_zero, Nat.min_eq_left]
  · exact UInt64.ofNat_toNat
  · have := hits.toNat_lt
    simp only [UInt64.size]
    omega

theorem saturatingAdd_one {hits : UInt64} (room : hits.toNat + 1 < UInt64.size) :
    saturatingAdd hits 1 = hits + 1 := by
  rw [saturatingAdd, UInt64.toNat_one, Nat.min_eq_left (by omega), UInt64.ofNat_add,
    UInt64.ofNat_toNat]
  rfl

theorem track_eq (u : UnitHits) (spans : List Span) :
    u.track spans = u.addSpans (spans.map (⟨·, 0⟩)) := by
  have same : (fun hits => saturatingAdd hits 0) = id := funext saturatingAdd_zero
  rw [track, addSpans, List.foldl_map]
  simp only [same]

theorem hit_eq {u : UnitHits} (ordered : Ordered SpanHits.span u.spans) {span : Span}
    (room : ((hitsOf span u.spans).getD 0).toNat + 1 < UInt64.size) :
    u.hit span = u.addSpans [⟨span, 1⟩] := by
  rw [hit, addSpans, List.foldl_cons, List.foldl_nil,
    ordered.bump_congr (· + 1) (saturatingAdd · 1) (saturatingAdd_one room).symm]

theorem learnSource_empty (u : UnitHits) : u.learnSource "" = u := by
  unfold learnSource
  split
  · next empty =>
    have none : u.source = "" := by simpa using empty
    rw [← none]
  · rfl

end UnitHits

/-- As long as no counter is full, a call counts as much as an entry of a hit file. -/
theorem hear_eq_addUnit {entries units : List UnitHits} (h : UnitsSum none entries units)
    (call : RecorderCall)
    (room : ∀ unit span, call = .record unit span →
      total span (listing none unit entries) + 1 < UInt64.size) :
    hear units call = Report.addUnit none units call.entry := by
  cases call with
  | instrument unit kind source spans =>
    refine updateUnit_congr h.ordered ?_ (gather_unit _) rfl ?_
    · intro u
      unfold UnitHits.track UnitHits.learnSource
      split <;> rfl
    · simp only [RecorderCall.entry, UnitHits.track_eq]
      congr 1
      cases unitOf unit units with
      | some u => rfl
      | none =>
        simp only [Option.getD_none, UnitHits.learnSource]
        split <;> rfl
  | record unit span =>
    have so_far := h.so_far ⟨unit, .module, "", []⟩ rfl
    refine updateUnit_congr h.ordered (fun _ => rfl) (gather_unit _) rfl ?_
    simp only [RecorderCall.entry, UnitHits.learnSource_empty]
    refine UnitHits.hit_eq so_far.ordered ?_
    rw [so_far.counts, tally_getD, saturated_toNat]
    have left : total span (listing none unit entries) + 1 < UInt64.size := room unit span rfl
    exact Nat.lt_of_le_of_lt (Nat.succ_le_succ (Nat.min_le_left _ _)) left

theorem listing_entry (unit : String) (call : RecorderCall) :
    listing none unit [call.entry] = if call.unit = unit then call.entry.spans else [] := by
  simp only [listing, shares, List.filter_singleton, concerns, inScope, Bool.and_true,
    call.entry_unit]
  split <;> simp_all

theorem total_entry (unit : String) (span : Span) (call : RecorderCall) :
    total span (listing none unit [call.entry]) = if call = .record unit span then 1 else 0 := by
  rw [listing_entry]
  cases call with
  | instrument unit' kind source spans =>
    have zero : total span (spans.map fun span => ⟨span, 0⟩) = 0 := total_of_zero (by simp)
    rw [if_neg (by simp : RecorderCall.instrument unit' kind source spans ≠ .record unit span)]
    split
    · exact zero
    · rfl
  | record unit' span' =>
    by_cases here : unit' = unit
    · by_cases hit : span' = span <;> simp [RecorderCall.unit, RecorderCall.entry, total, here, hit]
    · simp [RecorderCall.unit, total, here]

/-- What calls sum up to: how often a span was recorded. -/
theorem total_calls (unit : String) (span : Span) (calls : List RecorderCall) :
    total span (listing none unit (calls.map (·.entry))) = calls.count (.record unit span) := by
  induction calls with
  | nil => rfl
  | cons call rest ih =>
    rw [List.map_cons, ← List.singleton_append, listing_append, total_append, ih, total_entry,
      List.count_cons, Nat.add_comm]
    simp only [beq_iff_eq]

theorem listed_calls {unit : String} {span : Span} {calls : List RecorderCall} :
    (∃ s ∈ listing none unit (calls.map (·.entry)), s.span = span) ↔
      ∃ call ∈ calls, call.unit = unit ∧ span ∈ call.spans := by
  simp only [mem_listing, List.mem_map, inScope, and_true]
  constructor
  · rintro ⟨s, ⟨_, ⟨call, mem, rfl⟩, here, listed⟩, rfl⟩
    exact ⟨call, mem, call.entry_unit ▸ here, call.entry_spans ▸ List.mem_map_of_mem listed⟩
  · rintro ⟨call, mem, here, listed⟩
    rw [← call.entry_spans] at listed
    obtain ⟨s, listed, same⟩ := List.mem_map.mp listed
    exact ⟨s, ⟨_, ⟨call, mem, rfl⟩, call.entry_unit.trans here, listed⟩, same⟩

/-- The table of a session is what a merge makes of the entries of its calls. -/
theorem tableOf_eq {calls : List RecorderCall}
    (fits : ∀ unit span, calls.count (.record unit span) < UInt64.size) :
    tableOf calls = (calls.map (·.entry)).foldl (Report.addUnit none) [] := by
  induction calls using List.reverseRecOn with
  | nil => rfl
  | append_singleton calls call ih =>
    have so_far := ih fun unit span =>
      Nat.lt_of_le_of_lt (by rw [List.count_append]; exact Nat.le_add_right _ _) (fits unit span)
    have sum : UnitsSum none (calls.map (·.entry)) (tableOf calls) :=
      so_far ▸ (UnitsSum.nil none).addUnits _
    rw [List.map_append, List.foldl_append, ← so_far, tableOf, List.foldl_append]
    change hear (tableOf calls) call = Report.addUnit none (tableOf calls) call.entry
    refine hear_eq_addUnit sum call ?_
    rintro unit span rfl
    have last := fits unit span
    rw [List.count_append, List.count_singleton_self] at last
    rwa [total_calls]

/-- It is the sum of the calls that the session got. -/
theorem tableOf_sum {calls : List RecorderCall}
    (fits : ∀ unit span, calls.count (.record unit span) < UInt64.size) :
    UnitsSum none (calls.map (·.entry)) (tableOf calls) :=
  tableOf_eq fits ▸ (UnitsSum.nil none).addUnits _

/-- The calls about one unit, in order. -/
def about (unit : String) (calls : List RecorderCall) : List RecorderCall :=
  calls.filter (·.unit = unit)

theorem about_concat (unit : String) (calls : List RecorderCall) (call : RecorderCall) :
    about unit (calls ++ [call]) =
      if call.unit = unit then about unit calls ++ [call] else about unit calls := by
  rw [about, List.filter_append, List.filter_singleton, about]
  by_cases here : call.unit = unit <;> simp [here]

theorem count_about (unit : String) (span : Span) (calls : List RecorderCall) :
    (about unit calls).count (.record unit span) = calls.count (.record unit span) :=
  List.count_filter (by simp [RecorderCall.unit])

theorem about_spans {unit : String} {span : Span} {calls : List RecorderCall} :
    (∃ call ∈ about unit calls, span ∈ call.spans) ↔
      ∃ call ∈ calls, call.unit = unit ∧ span ∈ call.spans := by
  simp [about, and_assoc]

theorem total_ordered {spans : List SpanHits} (h : Ordered SpanHits.span spans) (span : Span) :
    total span spans = ((hitsOf span spans).getD 0).toNat := by
  rw [total, h.filter_eq, hitsOf_eq]
  cases row? SpanHits.span span spans <;> simp

theorem listing_ordered {units : List UnitHits} (h : Ordered UnitHits.unit units) (name : String) :
    listing none name units = ((unitOf name units).elim [] (·.spans)) := by
  have same : shares none name units = units.filter (·.unit = name) := by
    refine List.filter_congr fun u _ => ?_
    simp [concerns, inScope]
  rw [listing, same, h.filter_eq, unitOf_eq]
  cases row? UnitHits.unit name units <;> simp

namespace UnitsSum

variable {entries units : List UnitHits} {name : String} {span : Span}

/-- A sum has as many hits as what it sums up, if no counter became full. -/
theorem total_listing (h : UnitsSum none entries units)
    (fits : total span (listing none name entries) < UInt64.size) :
    total span (listing none name units) = total span (listing none name entries) := by
  have found : total span ((unitOf name units).elim [] (·.spans)) =
      (((unitOf name units).bind fun u => hitsOf span u.spans).getD 0).toNat := by
    cases here : unitOf name units with
    | none => rfl
    | some u => exact total_ordered (h.counted name u here).ordered span
  rw [listing_ordered h.ordered, found, h.hits, tally_getD, saturated_toNat]
  omega

/-- A sum lists the spans that what it sums up lists. -/
theorem listed_iff (h : UnitsSum none entries units) :
    (∃ s ∈ listing none name units, s.span = span) ↔
      ∃ s ∈ listing none name entries, s.span = span := by
  have found : (∃ s ∈ (unitOf name units).elim [] (·.spans), s.span = span) ↔
      ((unitOf name units).bind fun u => hitsOf span u.spans).isSome = true := by
    cases unitOf name units <;> simp [hitsOf]
  rw [listing_ordered h.ordered, found, h.hits, tally]
  split <;> simp_all

end UnitsSum

section

variable {calls : List RecorderCall}
  (fits : ∀ unit span, calls.count (.record unit span) < UInt64.size)

include fits

theorem total_table (unit : String) (span : Span) :
    total span (listing none unit (tableOf calls)) = calls.count (.record unit span) := by
  rw [(tableOf_sum fits).total_listing, total_calls]
  rw [total_calls]
  exact fits unit span

theorem listed_table (unit : String) (span : Span) :
    (∃ s ∈ listing none unit (tableOf calls), s.span = span) ↔
      ∃ call ∈ calls, call.unit = unit ∧ span ∈ call.spans :=
  (tableOf_sum fits).listed_iff.trans listed_calls

/-- Summing up a table is summing up what was put into it. -/
theorem tally_table (unit : String) (span : Span) :
    tally span (listing none unit (tableOf calls)) =
      if ∃ call ∈ calls, call.unit = unit ∧ span ∈ call.spans then
        some (saturated (calls.count (.record unit span)))
      else none := by
  simp only [tally, total_table fits, listed_table fits]

/-- The sum of a table has the units that the table was told of. -/
theorem reported_table {units : List UnitHits} (sum : UnitsSum none (tableOf calls) units)
    (name : String) : (unitOf name units).isSome = true ↔ about name calls ≠ [] := by
  have table := tableOf_sum fits
  have known : shares none name (tableOf calls) ≠ [] ↔
      (unitOf name (tableOf calls)).isSome = true := by
    rw [shares_ne_nil_iff, Option.isSome_iff_exists]
    simp [table.mem_iff, inScope]
  rw [sum.reported, known, table.reported, shares_ne_nil_iff, about, Ne, List.filter_eq_nil_iff]
  simp [inScope, RecorderCall.entry_unit]

end

/-- The same for any number of tables. -/
theorem tally_tables {runs : List String} {calls : String → List RecorderCall}
    (fits : ∀ runId unit span, (calls runId).count (.record unit span) < UInt64.size)
    (unit : String) (span : Span) :
    tally span (listing none unit (runs.flatMap fun runId => tableOf (calls runId))) =
      if ∃ call ∈ runs.flatMap calls, call.unit = unit ∧ span ∈ call.spans then
        some (saturated ((runs.flatMap calls).count (.record unit span)))
      else none := by
  have sums : total span (listing none unit (runs.flatMap fun runId => tableOf (calls runId))) =
      (runs.flatMap calls).count (.record unit span) := by
    induction runs with
    | nil => rfl
    | cons runId rest ih =>
      rw [List.flatMap_cons, listing_append, total_append, ih, total_table (fits runId),
        List.flatMap_cons, List.count_append]
  have listed : (∃ s ∈ listing none unit (runs.flatMap fun runId => tableOf (calls runId)),
      s.span = span) ↔ ∃ call ∈ runs.flatMap calls, call.unit = unit ∧ span ∈ call.spans := by
    clear sums
    induction runs with
    | nil => simp [listing, shares]
    | cons runId rest ih =>
      simp only [List.flatMap_cons, listing_append, List.mem_append, or_and_right, exists_or, ih,
        listed_table (fits runId)]
  simp only [tally, sums, listed]

theorem hear_ne_nil (units : List UnitHits) (call : RecorderCall) : hear units call ≠ [] := by
  cases call <;> exact updateUnit_ne_nil _ _ _

/-- A session that got a call knows a unit. -/
theorem tableOf_eq_nil_iff {calls : List RecorderCall} : tableOf calls = [] ↔ calls = [] := by
  cases calls using List.reverseRecOn with
  | nil => simp [tableOf]
  | append_singleton calls call =>
    rw [tableOf, List.foldl_append, List.foldl_cons, List.foldl_nil]
    simp [hear_ne_nil]

end Coverage
end ModuleSystem
