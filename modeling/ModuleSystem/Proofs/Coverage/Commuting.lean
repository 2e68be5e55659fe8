import ModuleSystem.Proofs.Coverage.Parts

/-! Callers do not agree on an order of their calls. Two calls next to each other can change places,
if they agree on what they say of a unit; the kind of a unit is said by the first call about it. -/

namespace ModuleSystem
namespace Coverage

theorem UnitHits.ext {u v : UnitHits} (unit : u.unit = v.unit) (kind : u.kind = v.kind)
    (source : u.source = v.source) (spans : u.spans = v.spans) : u = v := by
  cases u
  cases v
  simp_all only

/-- What a call does to a unit that is entered already. -/
def told (call : RecorderCall) (u : UnitHits) : UnitHits :=
  call.change .count (call.change .learn u)

theorem told_unit (call : RecorderCall) (u : UnitHits) : (told call u).unit = u.unit :=
  (call.change_unit .count _).trans (call.change_unit .learn u)

theorem told_kind (call : RecorderCall) (u : UnitHits) : (told call u).kind = u.kind := by
  have learned : (u.learnSource call.blank.source).kind = u.kind := by
    rw [UnitHits.learnSource]
    split <;> rfl
  cases call <;> exact learned

theorem told_source (call : RecorderCall) (u : UnitHits) :
    (told call u).source = if u.source = "" then call.blank.source else u.source := by
  have learned : (u.learnSource call.blank.source).source =
      if u.source = "" then call.blank.source else u.source := by
    simp only [UnitHits.learnSource, String.isEmpty_iff]
    split <;> rfl
  cases call <;> exact learned

theorem told_ordered {u : UnitHits} (h : Ordered SpanHits.span u.spans) (call : RecorderCall) :
    Ordered SpanHits.span (told call u).spans :=
  (h.change call .learn).change call .count

theorem hitsOf_told {u : UnitHits} (h : Ordered SpanHits.span u.spans) (call : RecorderCall)
    (span : Span) : hitsOf span (told call u).spans =
      if span ∈ call.spans then some ((hitsOf span u.spans).getD 0 + call.worth)
      else hitsOf span u.spans := by
  rw [told, hitsOf_change (h.change call .learn), hitsOf_change h]
  simp

theorem hear_eq_updateUnit (units : List UnitHits) (call : RecorderCall) :
    hear units call = updateUnit call.blank (told call) units := by
  cases call with
  | instrument unit kind source spans => rfl
  | record unit span =>
    have counts : told (.record unit span) = (·.hit span) := by
      funext u
      simp only [told, RecorderCall.change, RecorderCall.blank, UnitHits.learnSource_empty]
    rw [counts]
    rfl

theorem unitOf_hear {units : List UnitHits} (h : Ordered UnitHits.unit units) (call : RecorderCall)
    (name : String) : unitOf name (hear units call) =
      if name = call.unit then some (told call ((unitOf call.unit units).getD call.blank))
      else unitOf name units := by
  rw [hear_eq_updateUnit, unitOf_updateUnit h _ (told_unit call), call.blank_unit]

theorem InOrder.hear {units : List UnitHits} (h : InOrder units) (call : RecorderCall) :
    InOrder (Coverage.hear units call) := by
  have parts : Coverage.hear units call = changed call .count (changed call .learn units) := by
    rw [hear_eq_updateUnit, changed, changed, updateUnit_updateUnit (call.change_unit .learn)]
    rfl
  rw [parts]
  exact (h.change call .learn).change call .count

/-- Two calls agree on a unit: if it has to be entered they do so with the same kind, and they do
not know different sources of it. -/
def Agree (units : List UnitHits) (a b : RecorderCall) : Prop :=
  a.unit = b.unit →
    ((unitOf a.unit units).isSome ∨ a.blank.kind = b.blank.kind) ∧
      (a.blank.source = b.blank.source ∨ a.blank.source = "" ∨ b.blank.source = "")

section

variable {units : List UnitHits} {a b : RecorderCall}

theorem Agree.hear (h : Agree units a b) (ordered : Ordered UnitHits.unit units)
    (call : RecorderCall) : Agree (Coverage.hear units call) a b := by
  intro same
  refine ⟨(h same).1.imp_left fun known => ?_, (h same).2⟩
  rw [unitOf_hear ordered]
  split
  · rfl
  · exact known

/-- A unit that is told of two calls. -/
theorem told_comm {u : UnitHits} (order : Ordered SpanHits.span u.spans)
    (sources : a.blank.source = b.blank.source ∨ a.blank.source = "" ∨ b.blank.source = "") :
    told b (told a u) = told a (told b u) := by
  have unit : (told b (told a u)).unit = (told a (told b u)).unit := by
    simp only [told_unit]
  have kind : (told b (told a u)).kind = (told a (told b u)).kind := by
    simp only [told_kind]
  have source : (told b (told a u)).source = (told a (told b u)).source := by
    simp only [told_source]
    by_cases unknown : u.source = ""
    · obtain same | empty | empty := sources
      · simp [unknown, same]
      · simp [unknown, empty]
      · simp [unknown, empty]
    · simp [unknown]
  have spans : (told b (told a u)).spans = (told a (told b u)).spans := by
    refine (told_ordered (told_ordered order a) b).ext_hits (told_ordered (told_ordered order b) a)
      fun span => ?_
    rw [hitsOf_told (told_ordered order a), hitsOf_told order, hitsOf_told (told_ordered order b),
      hitsOf_told order]
    by_cases inA : span ∈ a.spans
    · by_cases inB : span ∈ b.spans
      · simp [inA, inB, UInt64.add_assoc, UInt64.add_comm a.worth]
      · simp [inA, inB]
    · simp [inA]
  exact UnitHits.ext unit kind source spans

/-- A unit that is entered without a source learns that of the call. -/
theorem told_blank (call : RecorderCall) :
    told call call.blank = told call { call.blank with source := "" } := by
  have learned : call.blank.learnSource call.blank.source =
      { call.blank with source := "" }.learnSource call.blank.source := by
    by_cases unknown : call.blank.source = ""
    · simp only [UnitHits.learnSource, unknown]
      rfl
    · simp [UnitHits.learnSource, unknown]
  exact congrArg (call.change .count) learned

/-- The first of two calls may have to enter the unit. -/
theorem entered_comm (order : InOrder units) (agree : Agree units a b) (same : a.unit = b.unit) :
    told b (told a ((unitOf a.unit units).getD a.blank)) =
      told a (told b ((unitOf a.unit units).getD b.blank)) := by
  obtain ⟨kinds, sources⟩ := agree same
  cases known : unitOf a.unit units with
  | some u => exact told_comm (order.spans _ u known) sources
  | none =>
    have kind : a.blank.kind = b.blank.kind := by simpa [known] using kinds
    have start : { a.blank with source := "" } = { b.blank with source := "" } := by
      have unit : a.blank.unit = b.blank.unit := by rw [a.blank_unit, b.blank_unit, same]
      have spans : a.blank.spans = b.blank.spans := by cases a <;> cases b <;> rfl
      exact UnitHits.ext unit kind rfl spans
    calc told b (told a a.blank)
        = told b (told a { a.blank with source := "" }) := by rw [told_blank a]
      _ = told a (told b { a.blank with source := "" }) := told_comm a.blank_ordered sources
      _ = told a (told b b.blank) := by rw [start, ← told_blank b]

/-- Calls about different units do not meet; calls about one unit add up. -/
theorem hear_comm (order : InOrder units) (agree : Agree units a b) :
    hear (hear units a) b = hear (hear units b) a := by
  refine ((order.hear a).hear b).ordered.ext ((order.hear b).hear a).ordered fun name => ?_
  rw [← unitOf_eq, ← unitOf_eq, unitOf_hear (order.hear a).ordered,
    unitOf_hear (order.hear b).ordered]
  simp only [unitOf_hear order.ordered]
  by_cases same : a.unit = b.unit
  · have both := entered_comm order agree same
    rw [same] at both
    by_cases here : name = b.unit
    · simp [here, same, both]
    · simp [here, same]
  · have other : b.unit ≠ a.unit := Ne.symm same
    simp only [same, other, if_false]
    by_cases first : name = a.unit
    · have second : name ≠ b.unit := fun here => same (first.symm.trans here)
      simp [first, same]
    · simp [first]

end

variable {units : List UnitHits} {calls calls' : List RecorderCall}

/-- Calls that agree with each other may come in any order. -/
theorem foldl_hear_perm (perm : calls.Perm calls') (order : InOrder units)
    (agree : ∀ a ∈ calls, ∀ b ∈ calls, Agree units a b) :
    calls.foldl hear units = calls'.foldl hear units := by
  induction perm generalizing units with
  | nil => rfl
  | cons call _ ih =>
    refine ih (order.hear call) fun a memA b memB => ?_
    have before := agree a (List.mem_cons_of_mem _ memA) b (List.mem_cons_of_mem _ memB)
    exact before.hear order.ordered call
  | swap a b rest =>
    have both : Agree units b a := agree b List.mem_cons_self a (by simp)
    rw [List.foldl_cons, List.foldl_cons, hear_comm order both]
    rfl
  | trans first _ ih ih' =>
    exact (ih order agree).trans <| ih' order fun a memA b memB =>
      agree a (first.mem_iff.mpr memA) b (first.mem_iff.mpr memB)

/-- The kind of a unit stays what it was first. -/
theorem kind_foldl_hear (order : InOrder units) {name : String} {u : UnitHits}
    (known : unitOf name units = some u) (calls : List RecorderCall) :
    (unitOf name (calls.foldl hear units)).map (·.kind) = some u.kind := by
  induction calls generalizing units u with
  | nil => rw [List.foldl_nil, known, Option.map_some]
  | cons call rest ih =>
    rw [List.foldl_cons]
    by_cases here : name = call.unit
    · have found : unitOf name (hear units call) = some (told call u) := by
        rw [unitOf_hear order.ordered, if_pos here, ← here, known, Option.getD_some]
      rw [ih (order.hear call) found, told_kind]
    · exact ih (order.hear call) (by rw [unitOf_hear order.ordered, if_neg here, known])

/-- The first call about a unit that is not known says what kind it is. -/
theorem kind_foldl_hear_cons (order : InOrder units) (call : RecorderCall)
    (unknown : unitOf call.unit units = none) (calls : List RecorderCall) :
    (unitOf call.unit ((call :: calls).foldl hear units)).map (·.kind) = some call.blank.kind := by
  have entered : unitOf call.unit (hear units call) = some (told call call.blank) := by
    rw [unitOf_hear order.ordered, if_pos rfl, unknown, Option.getD_none]
  rw [List.foldl_cons, kind_foldl_hear (order.hear call) entered, told_kind]

/-- A unit whose kind is not told. -/
def UnitHits.kindless (u : UnitHits) : UnitHits := { u with kind := .module }

end Coverage

/-- A call that does not tell a kind. -/
def RecorderCall.kindless : RecorderCall → RecorderCall
  | .instrument unit _ source spans => .instrument unit .module source spans
  | .record unit span => .record unit span

namespace Coverage

variable {units : List UnitHits} {calls : List RecorderCall}

theorem updateUnit_map {blank : UnitHits} {change change' f : UnitHits → UnitHits}
    (keeps : ∀ u, (f u).unit = u.unit) (along : ∀ u, f (change u) = change' (f u))
    (units : List UnitHits) :
    (updateUnit blank change units).map f = updateUnit (f blank) change' (units.map f) := by
  induction units with
  | nil => simp [updateUnit, along]
  | cons u rest ih =>
    rw [List.map_cons, updateUnit, updateUnit, keeps, keeps]
    split
    · simp [along]
    · split
      · simp [along]
      · rw [List.map_cons, ih]

theorem hear_kindless (units : List UnitHits) (call : RecorderCall) :
    (hear units call).map UnitHits.kindless = hear (units.map UnitHits.kindless) call.kindless := by
  have learned (u : UnitHits) (source : String) :
      (u.learnSource source).kindless = u.kindless.learnSource source := by
    by_cases unknown : u.source.isEmpty = true
    · simp [UnitHits.learnSource, UnitHits.kindless, unknown]
    · simp [UnitHits.learnSource, UnitHits.kindless, unknown]
  have along (u : UnitHits) : (told call u).kindless = told call.kindless u.kindless := by
    cases call with
    | instrument unit kind source spans => exact congrArg (·.track spans) (learned u source)
    | record unit span => exact congrArg (·.hit span) (learned u "")
  have blank : call.blank.kindless = call.kindless.blank := by cases call <;> rfl
  rw [hear_eq_updateUnit, hear_eq_updateUnit, ← blank]
  exact updateUnit_map (f := UnitHits.kindless) (fun _ => rfl) along units

theorem foldl_hear_kindless (units : List UnitHits) (calls : List RecorderCall) :
    (calls.foldl hear units).map UnitHits.kindless =
      (calls.map RecorderCall.kindless).foldl hear (units.map UnitHits.kindless) := by
  induction calls generalizing units with
  | nil => rfl
  | cons call rest ih => rw [List.foldl_cons, ih, hear_kindless, List.map_cons, List.foldl_cons]

theorem InOrder.kindless (h : InOrder units) : InOrder (units.map UnitHits.kindless) where
  ordered := List.pairwise_map.mpr h.ordered
  spans name u found := by
    rw [unitOf, List.find?_map] at found
    obtain ⟨v, known, rfl⟩ := Option.map_eq_some_iff.mp found
    exact h.spans name v known

/-- Each unit is made known with one kind and one source. -/
def Consistent (calls : List RecorderCall) : Prop :=
  ∀ unit, ∃ kind source, source ≠ "" ∧ ∀ kind' source' spans,
    .instrument unit kind' source' spans ∈ calls → kind' = kind ∧ source' = source

theorem Consistent.sources (h : Consistent calls) {a b : RecorderCall} (memA : a ∈ calls)
    (memB : b ∈ calls) (same : a.unit = b.unit) :
    a.blank.source = b.blank.source ∨ a.blank.source = "" ∨ b.blank.source = "" := by
  obtain ⟨kind, source, -, one⟩ := h a.unit
  cases a with
  | record unit span => exact .inr (.inl rfl)
  | instrument unit kindA sourceA spansA =>
    cases b with
    | record unit span => exact .inr (.inr rfl)
    | instrument unit' kindB sourceB spansB =>
      obtain rfl : unit = unit' := same
      exact .inl ((one _ _ _ memA).2.trans (one _ _ _ memB).2.symm)

/-- Calls agree if no unit has to be entered that is made known as a script and also recorded. -/
theorem Consistent.agree (h : Consistent calls)
    (apart : ∀ unit source spans span, unitOf unit units = none →
      .instrument unit .script source spans ∈ calls → .record unit span ∉ calls) :
    ∀ a ∈ calls, ∀ b ∈ calls, Agree units a b := by
  have recorded : ∀ unit kind source spans span, .instrument unit kind source spans ∈ calls →
      .record unit span ∈ calls → (unitOf unit units).isSome ∨ kind = .module := by
    intro unit kind source spans span told hit
    cases known : unitOf unit units with
    | some u => exact .inl rfl
    | none =>
      cases kind with
      | module => exact .inr rfl
      | script => exact absurd hit (apart unit source spans span known told)
  intro a memA b memB same
  refine ⟨?_, h.sources memA memB same⟩
  cases a with
  | record unit span =>
    cases b with
    | record unit' span' => exact .inr rfl
    | instrument unit' kind source spans =>
      obtain rfl : unit = unit' := same
      exact (recorded unit kind source spans span memB memA).imp_right Eq.symm
  | instrument unit kind source spans =>
    cases b with
    | record unit' span =>
      obtain rfl : unit = unit' := same
      exact recorded unit kind source spans span memA memB
    | instrument unit' kind' source' spans' =>
      obtain rfl : unit = unit' := same
      obtain ⟨_, _, -, one⟩ := h unit
      exact .inr ((one _ _ _ memA).1.trans (one _ _ _ memB).1.symm)

theorem foldl_hear_units {s : Session} (unlimited : s.scope = none) (calls : List RecorderCall) :
    (calls.foldl Session.hear s).units = calls.foldl hear s.units := by
  induction calls generalizing s with
  | nil => rfl
  | cons call rest ih =>
    have next := Session.hear_eq unlimited call
    have still : (s.hear call).scope = none := by rw [next, unlimited]
    rw [List.foldl_cons, ih still, next, List.foldl_cons]

theorem Consistent.agree_kindless (h : Consistent calls) (units : List UnitHits) :
    ∀ a ∈ calls.map RecorderCall.kindless, ∀ b ∈ calls.map RecorderCall.kindless,
      Agree units a b := by
  have unit (call : RecorderCall) : call.kindless.unit = call.unit := by cases call <;> rfl
  have kind (call : RecorderCall) : call.kindless.blank.kind = .module := by cases call <;> rfl
  have source (call : RecorderCall) : call.kindless.blank.source = call.blank.source := by
    cases call <;> rfl
  intro _ inA _ inB same
  obtain ⟨a, memA, rfl⟩ := List.mem_map.mp inA
  obtain ⟨b, memB, rfl⟩ := List.mem_map.mp inB
  rw [unit, unit] at same
  rw [kind, kind, source, source]
  exact ⟨.inr rfl, h.sources memA memB same⟩

/-- A unit that is new to a session, made known as a script and recorded: the order of these two
calls can be read off the session. -/
theorem kinds_differ {s : Session} (unlimited : s.scope = none) (order : InOrder s.units)
    {unit source : String} {spans : List Span} {span : Span} (unknown : unitOf unit s.units = none)
    (told : .instrument unit .script source spans ∈ calls) (hit : .record unit span ∈ calls) :
    ∃ first last, calls.Perm first ∧ calls.Perm last ∧
      (first.foldl Session.hear s).units ≠ (last.foldl Session.hear s).units := by
  have other : .record unit span ∈ calls.erase (.instrument unit .script source spans) :=
    (List.mem_erase_of_ne (by simp)).mpr hit
  have front := (List.perm_cons_erase told).trans ((List.perm_cons_erase other).cons _)
  refine ⟨_, _, front, front.trans (List.Perm.swap _ _ _), fun same => ?_⟩
  have script := kind_foldl_hear_cons order (.instrument unit .script source spans) unknown
    (.record unit span ::
      (calls.erase (.instrument unit .script source spans)).erase (.record unit span))
  have module := kind_foldl_hear_cons order (.record unit span) unknown
    (.instrument unit .script source spans ::
      (calls.erase (.instrument unit .script source spans)).erase (.record unit span))
  rw [foldl_hear_units unlimited, foldl_hear_units unlimited] at same
  rw [same] at script
  cases script.symm.trans module

/-- Calls that say one thing of each unit come to the same in any order, up to the kinds of units.
The kinds are the same in any order exactly when no unit that is new to the session is made known
as a script and recorded as well. -/
theorem orders_agree {s : Session} (unlimited : s.scope = none) (order : InOrder s.units)
    (consistent : Consistent calls) :
    (∀ calls', calls.Perm calls' →
      (calls'.foldl Session.hear s).units.map UnitHits.kindless =
        (calls.foldl Session.hear s).units.map UnitHits.kindless) ∧
      ((∀ calls', calls.Perm calls' →
          (calls'.foldl Session.hear s).units = (calls.foldl Session.hear s).units) ↔
        ∀ unit source spans span, unitOf unit s.units = none →
          .instrument unit .script source spans ∈ calls → .record unit span ∉ calls) := by
  simp only [foldl_hear_units unlimited]
  refine ⟨fun calls' perm => ?_, fun same unit source spans span unknown told hit => ?_,
    fun apart calls' perm => ?_⟩
  · rw [foldl_hear_kindless, foldl_hear_kindless]
    exact (foldl_hear_perm (perm.map _) order.kindless (consistent.agree_kindless _)).symm
  · obtain ⟨first, last, perm, perm', differ⟩ := kinds_differ unlimited order unknown told hit
    rw [foldl_hear_units unlimited, foldl_hear_units unlimited] at differ
    exact differ ((same first perm).trans (same last perm').symm)
  · exact (foldl_hear_perm perm order (consistent.agree apart)).symm

/-- A session that nothing has been said to. -/
def fresh : Session := ⟨"data", "run", none, [], false⟩

/-- A module that is made known and recorded, in any order. -/
theorem orders_agree_modules :
    let calls : List RecorderCall :=
      [.instrument "/a" .module "a.loam" [⟨1, 1⟩], .record "/a" ⟨1, 1⟩]
    fresh.scope = none ∧ InOrder fresh.units ∧ Consistent calls ∧
      ∀ calls', calls.Perm calls' →
        (calls'.foldl Session.hear fresh).units = [⟨"/a", .module, "a.loam", [⟨⟨1, 1⟩, 1⟩]⟩] := by
  intro calls
  have consistent : Consistent calls := by
    intro unit
    refine ⟨.module, "a.loam", by decide, fun kind source spans told => ?_⟩
    simp only [calls, List.mem_cons, RecorderCall.instrument.injEq, reduceCtorEq,
      List.not_mem_nil, or_false] at told
    exact ⟨told.2.1, told.2.2.1⟩
  have apart : ∀ unit source spans span, unitOf unit fresh.units = none →
      .instrument unit .script source spans ∈ calls → .record unit span ∉ calls := by
    simp [calls]
  exact ⟨rfl, InOrder.nil, consistent, (orders_agree rfl InOrder.nil consistent).2.mpr apart⟩

/-- A script that is made known and recorded. -/
def jobCalls : List RecorderCall :=
  [.instrument "job" .script "job.loam" [⟨1, 1⟩], .record "job" ⟨1, 1⟩]

/-- Either order of the two calls, and two answers. -/
theorem script_orders_differ :
    jobCalls.Perm jobCalls.reverse ∧ Consistent jobCalls ∧
      (jobCalls.foldl Session.hear fresh).units = [⟨"job", .script, "job.loam", [⟨⟨1, 1⟩, 1⟩]⟩] ∧
      (jobCalls.reverse.foldl Session.hear fresh).units =
        [⟨"job", .module, "job.loam", [⟨⟨1, 1⟩, 1⟩]⟩] := by
  refine ⟨jobCalls.reverse_perm.symm, fun unit => ?_, by decide, by decide⟩
  refine ⟨.script, "job.loam", by decide, fun kind source spans told => ?_⟩
  simp [jobCalls] at told
  exact ⟨told.2.1, told.2.2.1⟩

end Coverage
end ModuleSystem
