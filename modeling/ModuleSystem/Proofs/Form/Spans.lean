import ModuleSystem.Proofs.Coverage.Tables
import ModuleSystem.Proofs.Form.Size
import ModuleSystem.Proofs.Json.Positions
import ModuleSystem.Proofs.Json.Scanning

namespace ModuleSystem

namespace Form

open Coverage (Span)

theorem spanOf_exact {position : Json.Position} (line : position.line < 2 ^ 32)
    (column : position.column < 2 ^ 32) :
    (spanOf position).line.toNat = position.line ∧
      (spanOf position).column.toNat = position.column := by
  rw [spanOf]
  exact ⟨Nat.mod_eq_of_lt line, Nat.mod_eq_of_lt column⟩

theorem spanOf_lt {p q : Json.Position} (before : p.Before q) (line : p.line < 2 ^ 32)
    (column : p.column < 2 ^ 32) (line' : q.line < 2 ^ 32) (column' : q.column < 2 ^ 32) :
    spanOf p < spanOf q := by
  obtain ⟨line_eq, column_eq⟩ := spanOf_exact line column
  obtain ⟨line_eq', column_eq'⟩ := spanOf_exact line' column'
  rw [Span.lt_iff, UInt32.lt_iff_toNat_lt, UInt32.lt_iff_toNat_lt, ← UInt32.toNat_inj, line_eq,
    column_eq, line_eq', column_eq']
  exact before

section Forms

variable {inModule : Bool} {text : String} {p : Program}

theorem ofForm_ok {form : Json.Position × Json} {located : Located}
    (h : Located.ofForm inModule form = .ok located) :
    Statement.ofJson inModule form.2 = .ok located.statement ∧ located.span = spanOf form.1 := by
  unfold Located.ofForm at h
  split at h
  · next compiled =>
    cases h
    exact ⟨compiled, rfl⟩
  · cases h

/-- Each form of a program is a value of its text, in order. -/
theorem compile_forms (h : compile inModule text = .ok p) :
    ∃ forms, Json.stream text = .ok forms ∧
      List.Forall₂ (fun form located => Located.ofForm inModule form = .ok located) forms p := by
  obtain ⟨forms, read, made⟩ := Except.of_bind_ok h
  have streamed : Json.stream text = .ok forms := by
    unfold formsOf at read
    split at read
    · next streamed =>
      cases read
      exact streamed
    · cases read
  exact ⟨forms, streamed, Except.mapM_ok made⟩

theorem compile_of_stream {forms : List (Json.Position × Json)} (h : Json.stream text = .ok forms) :
    compile inModule text = forms.mapM (Located.ofForm inModule) := by
  rw [compile, formsOf, h]
  rfl

theorem compile_spans (h : compile inModule text = .ok p) :
    ∃ forms, Json.stream text = .ok forms ∧ p.spans = forms.map fun form => spanOf form.1 := by
  obtain ⟨forms, streamed, pairs⟩ := compile_forms h
  refine ⟨forms, streamed, ?_⟩
  clear h streamed
  induction pairs with
  | nil => rfl
  | cons first _ ih =>
    rw [Program.spans, List.map_cons, List.map_cons, (ofForm_ok first).2]
    exact congrArg _ ih

/-- The spans can be told from the text without the counts of the reader. -/
theorem compile_scanned (h : compile inModule text = .ok p) :
    ∃ forms, Json.Scanned [] text.toList forms ∧
      p.spans = forms.map fun form => spanOf form.1 := by
  obtain ⟨forms, streamed, spans⟩ := compile_spans h
  exact ⟨forms, Json.stream_scanned streamed, spans⟩

end Forms

/-- Where the forms of a text begin. -/
def starts (forms : List (Json.Position × Json)) : List (Nat × Nat) :=
  forms.map fun form => (form.1.line, form.1.column)

/-- In a text that is not too long, spans tell exactly where forms begin, and they increase. -/
theorem compile_places {inModule : Bool} {text : String} {p : Program}
    (h : compile inModule text = .ok p) (short : text.length < 2 ^ 32) :
    p.spans.Pairwise (· < ·) ∧ ∃ forms, Json.stream text = .ok forms ∧
      p.spans.map (fun span => (span.line.toNat, span.column.toNat)) = starts forms := by
  obtain ⟨forms, streamed, spans⟩ := compile_spans h
  obtain ⟨apart, bounds⟩ := Json.stream_positions streamed
  have small : ∀ form ∈ forms, form.1.line < 2 ^ 32 ∧ form.1.column < 2 ^ 32 := by
    intro form mem
    obtain ⟨line, column⟩ := bounds form mem
    exact ⟨Nat.lt_of_le_of_lt line short, Nat.lt_of_le_of_lt column short⟩
  refine ⟨?_, forms, streamed, ?_⟩
  · rw [spans]
    refine List.pairwise_map.mpr ((List.pairwise_map.mp apart).imp_of_mem ?_)
    intro form form' mem mem' before
    obtain ⟨line, column⟩ := small form mem
    obtain ⟨line', column'⟩ := small form' mem'
    exact spanOf_lt before line column line' column'
  · rw [spans, List.map_map, starts]
    refine List.map_congr_left fun form mem => ?_
    obtain ⟨line, column⟩ := spanOf_exact (small form mem).1 (small form mem).2
    exact Prod.ext line column

end Form
end ModuleSystem
