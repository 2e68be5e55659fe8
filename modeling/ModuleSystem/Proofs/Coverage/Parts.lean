import ModuleSystem.Proofs.Coverage.Counting

/-! A session that gets a call enters the unit into its table, learns the source of the unit,
counts, and marks itself as dirty, one after the other. Each part by itself keeps the table in
order. -/

namespace ModuleSystem.Coverage

/-- What a call does to the unit that it is about. -/
inductive Part where
  | enter
  | learn
  | count
  deriving DecidableEq

end Coverage

namespace RecorderCall

open Coverage

/-- The unit as it is entered if the table does not have it. -/
def blank : RecorderCall → UnitHits
  | .instrument unit kind source _ => ⟨unit, kind, source, []⟩
  | .record unit _ => ⟨unit, .module, "", []⟩

/-- One part of a call. A record knows no source. -/
def change (call : RecorderCall) : Part → UnitHits → UnitHits
  | .enter, u => u
  | .learn, u => u.learnSource call.blank.source
  | .count, u =>
    match call with
    | .instrument _ _ _ spans => u.track spans
    | .record _ span => u.hit span

/-- How much a call counts for each span that it is about. -/
def worth : RecorderCall → UInt64
  | .instrument .. => 0
  | .record .. => 1

theorem blank_ordered (call : RecorderCall) : Ordered SpanHits.span call.blank.spans := by
  cases call <;> exact List.Pairwise.nil

theorem blank_unit (call : RecorderCall) : call.blank.unit = call.unit := by
  cases call <;> rfl

theorem change_unit (call : RecorderCall) (part : Part) (u : UnitHits) :
    (call.change part u).unit = u.unit := by
  cases part with
  | enter => rfl
  | learn =>
    rw [change, UnitHits.learnSource]
    split <;> rfl
  | count => cases call <;> rfl

end RecorderCall

namespace Coverage

/-- Whether a session takes a call: it knows the unit, or the unit is in its scope. -/
def Session.accepts (s : Session) (call : RecorderCall) : Bool :=
  (unitOf call.unit s.units).isSome || inScope s.scope call.unit call.blank.kind

/-- What one part of a call does to a table. -/
def changed (call : RecorderCall) (part : Part) (units : List UnitHits) : List UnitHits :=
  updateUnit call.blank (call.change part) units

/-- A unit that is changed twice. -/
theorem updateUnit_updateUnit {blank : UnitHits} {f : UnitHits → UnitHits}
    (keeps : ∀ u, (f u).unit = u.unit) (g : UnitHits → UnitHits) (units : List UnitHits) :
    updateUnit blank g (updateUnit blank f units) = updateUnit blank (g ∘ f) units := by
  induction units with
  | nil => simp [updateUnit, keeps]
  | cons u rest ih =>
    rw [updateUnit, updateUnit]
    split
    · simp [updateUnit, keeps]
    · next not_before =>
      split
      · next same => simp [updateUnit, keeps, same]
      · next other => rw [updateUnit, if_neg not_before, if_neg other, ih]

/-- All parts of a call in a row. -/
theorem Session.hear_parts (s : Session) (call : RecorderCall) :
    s.hear call = if s.accepts call then
      { s with
        units := changed call .count (changed call .learn (changed call .enter s.units))
        dirty := true }
    else s := by
  have parts : changed call .count (changed call .learn (changed call .enter s.units)) =
      updateUnit call.blank (call.change .count ∘ call.change .learn) s.units := by
    have enter : call.change .enter = id := rfl
    unfold changed
    rw [updateUnit_updateUnit (call.change_unit .enter), enter, Function.comp_id,
      updateUnit_updateUnit (call.change_unit .learn)]
  rw [parts]
  cases call with
  | instrument unit kind source spans => rfl
  | record unit span =>
    have change : (RecorderCall.record unit span).change .count ∘
        (RecorderCall.record unit span).change .learn = (·.hit span) := by
      funext u
      simp only [Function.comp_apply, RecorderCall.change, RecorderCall.blank,
        UnitHits.learnSource_empty]
    rw [change]
    rfl

/-- A table with its units in order, and with the spans of each unit in order. -/
structure InOrder (units : List UnitHits) : Prop where
  ordered : Ordered UnitHits.unit units
  spans : ∀ name u, unitOf name units = some u → Ordered SpanHits.span u.spans

theorem InOrder.nil : InOrder [] := ⟨List.Pairwise.nil, fun name u none => by cases none⟩

theorem Ordered.track {spans : List SpanHits} (h : Ordered SpanHits.span spans) (more : List Span) :
    Ordered SpanHits.span (more.foldl (fun spans span => Coverage.bump id span spans) spans) := by
  induction more generalizing spans with
  | nil => exact h
  | cons span rest ih => exact ih (h.bump id span)

theorem Ordered.change {u : UnitHits} (h : Ordered SpanHits.span u.spans) (call : RecorderCall)
    (part : Part) : Ordered SpanHits.span (call.change part u).spans := by
  cases part with
  | enter => exact h
  | learn =>
    rw [RecorderCall.change, UnitHits.learnSource]
    split <;> exact h
  | count =>
    cases call with
    | instrument unit kind source spans => exact h.track spans
    | record unit span => exact h.bump (· + 1) span

theorem InOrder.change {units : List UnitHits} (h : InOrder units) (call : RecorderCall)
    (part : Part) : InOrder (changed call part units) := by
  constructor
  · exact h.ordered.updateUnit (call.change_unit part)
  · intro name u found
    rw [changed, unitOf_updateUnit h.ordered _ (call.change_unit part)] at found
    split at found
    · cases found
      apply Ordered.change
      cases known : unitOf call.blank.unit units with
      | none => exact call.blank_ordered
      | some u => exact h.spans _ u known
    · exact h.spans name u found

/-- The count of a span in a table, if it is listed there. -/
def hitsIn (units : List UnitHits) (unit : String) (span : Span) : Option UInt64 :=
  (unitOf unit units).bind fun u => hitsOf span u.spans

/-- Spans that are tracked keep their counts, and new ones begin at zero. -/
theorem hitsOf_track {spans : List SpanHits} (h : Ordered SpanHits.span spans) (more : List Span)
    (span : Span) :
    hitsOf span (more.foldl (fun spans span => Coverage.bump id span spans) spans) =
      if span ∈ more then some ((hitsOf span spans).getD 0) else hitsOf span spans := by
  induction more generalizing spans with
  | nil => rfl
  | cons first rest ih =>
    rw [List.foldl_cons, ih (h.bump id first), hitsOf_bump h]
    by_cases here : span = first
    · simp [here]
    · simp [here]

theorem hitsOf_change {u : UnitHits} (h : Ordered SpanHits.span u.spans) (call : RecorderCall)
    (part : Part) (span : Span) :
    hitsOf span (call.change part u).spans =
      if part = .count ∧ span ∈ call.spans then some ((hitsOf span u.spans).getD 0 + call.worth)
      else hitsOf span u.spans := by
  cases part with
  | enter => simp [RecorderCall.change]
  | learn =>
    have same : (call.change .learn u).spans = u.spans := by
      rw [RecorderCall.change, UnitHits.learnSource]
      split <;> rfl
    simp [same]
  | count =>
    cases call with
    | instrument unit kind source spans =>
      have tracked := hitsOf_track h spans span
      apply tracked.trans
      simp [RecorderCall.spans, RecorderCall.worth]
    | record unit span' =>
      have bumped := hitsOf_bump h (· + 1) span' span
      apply bumped.trans
      by_cases here : span = span'
      · simp [RecorderCall.spans, RecorderCall.worth, here]
      · simp [RecorderCall.spans, here]

/-- Only counting changes the counts, and only those of the spans that the call is about. -/
theorem hitsIn_change {units : List UnitHits} (h : InOrder units) (call : RecorderCall)
    (part : Part) (unit : String) (span : Span) :
    hitsIn (changed call part units) unit span =
      if part = .count ∧ unit = call.unit ∧ span ∈ call.spans then
        some ((hitsIn units unit span).getD 0 + call.worth)
      else hitsIn units unit span := by
  rw [hitsIn, changed, unitOf_updateUnit h.ordered _ (call.change_unit part), call.blank_unit]
  by_cases here : unit = call.unit
  · have base : hitsIn units unit span =
        hitsOf span ((unitOf call.unit units).getD call.blank).spans := by
      rw [hitsIn, here]
      cases unitOf call.unit units with
      | none => cases call <;> rfl
      | some u => rfl
    have ordered : Ordered SpanHits.span ((unitOf call.unit units).getD call.blank).spans := by
      cases known : unitOf call.unit units with
      | none => exact call.blank_ordered
      | some u => exact h.spans _ u known
    rw [if_pos here, Option.bind_some, hitsOf_change ordered, base]
    simp [here]
  · rw [if_neg here]
    simp [here, hitsIn]

end Coverage
end ModuleSystem
