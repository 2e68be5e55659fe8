import ModuleSystem.Proofs.Form.Spans
import ModuleSystem.Proofs.Json.Streams

namespace ModuleSystem

namespace Coverage

/-- A span further down. -/
def Span.lower (lines : Nat) (span : Span) : Span := ⟨span.line + lines.toUInt32, span.column⟩

end Coverage

namespace Form

open Coverage (Span)

variable {inModule : Bool}

/-- A statement further down. -/
def Located.lower (lines : Nat) (located : Located) : Located :=
  ⟨located.span.lower lines, located.statement⟩

theorem spanOf_lower (lines : Nat) (position : Json.Position) :
    spanOf (position.lower lines) = (spanOf position).lower lines := by
  rw [spanOf, Json.Position.lower, Span.lower, spanOf]
  simp [Nat.toUInt32]

theorem ofForm_lower {form : Json.Position × Json} {located : Located} (lines : Nat)
    (h : Located.ofForm inModule form = .ok located) :
    Located.ofForm inModule (form.1.lower lines, form.2) = .ok (located.lower lines) := by
  obtain ⟨compiled, span⟩ := ofForm_ok h
  simp only [Located.ofForm, compiled, spanOf_lower, ← span]
  rfl

/-- A text below another one, behind a line break, compiles to the forms of both. -/
theorem compile_lines {first second : String} {p q : Program} (h : compile inModule first = .ok p)
    (h' : compile inModule second = .ok q) :
    compile inModule (first ++ "\n" ++ second) =
      .ok (p ++ q.map (Located.lower (first.toList.count '\n' + 1))) := by
  obtain ⟨forms, streamed, made⟩ := compile_forms h
  obtain ⟨more, streamed', made'⟩ := compile_forms h'
  rw [compile_of_stream (Json.stream_lines streamed streamed')]
  apply Except.mapM_of_forall₂
  apply List.rel_append made
  rw [Json.lower, List.forall₂_map_left_iff, List.forall₂_map_right_iff]
  exact made'.imp fun _ _ compiled => ofForm_lower _ compiled

/-- In a text that is not too long, no line is cut off when it comes below another text. -/
theorem lower_exact {first second : String} {p q : Program} (h : compile inModule first = .ok p)
    (h' : compile inModule second = .ok q) (short : (first ++ "\n" ++ second).length < 2 ^ 32) :
    ∀ located ∈ q, (located.lower (first.toList.count '\n' + 1)).span.line.toNat =
      located.span.line.toNat + (first.toList.count '\n' + 1) := by
  obtain ⟨forms, streamed, _⟩ := compile_spans h
  obtain ⟨more, streamed', spans⟩ := compile_spans h'
  have bounds := (Json.stream_positions (Json.stream_lines streamed streamed')).2
  intro located mem
  have span_mem : located.span ∈ more.map fun form => spanOf form.1 :=
    spans ▸ List.mem_map_of_mem mem
  obtain ⟨form, form_mem, span⟩ := List.mem_map.mp span_mem
  obtain ⟨line, column⟩ := bounds (form.1.lower (first.toList.count '\n' + 1), form.2)
    (List.mem_append_right _ (List.mem_map_of_mem form_mem))
  have small := Nat.lt_of_le_of_lt line short
  have lowered := (spanOf_exact small (Nat.lt_of_le_of_lt column short)).1
  have own : form.1.line < 2 ^ 32 := Nat.lt_of_le_of_lt (Nat.le_add_right _ _) small
  rw [Located.lower, ← span, ← spanOf_lower, lowered,
    (spanOf_exact own (Nat.lt_of_le_of_lt column short)).1]
  rfl

/-- What a program tells of its text: its forms are the values that lie there, and their spans are the
places where those values begin. -/
def Program.Tells (inModule : Bool) (text : String) (p : Program) : Prop :=
  ∃ forms, Json.Laid [] text.toList forms ∧ List.Forall₂ (fun form located =>
    Statement.ofJson inModule form.2 = .ok located.statement ∧
      located.span.line.toNat = form.1.line ∧ located.span.column.toNat = form.1.column) forms p

theorem compile_tells {text : String} {p : Program} (h : compile inModule text = .ok p)
    (short : text.length < 2 ^ 32) : p.Tells inModule text := by
  obtain ⟨forms, streamed, made⟩ := compile_forms h
  have bounds := (Json.stream_positions streamed).2
  refine ⟨forms, Json.stream_laid streamed, ?_⟩
  have small : ∀ form ∈ forms, form.1.line < 2 ^ 32 ∧ form.1.column < 2 ^ 32 := by
    intro form mem
    obtain ⟨line, column⟩ := bounds form mem
    exact ⟨Nat.lt_of_le_of_lt line short, Nat.lt_of_le_of_lt column short⟩
  refine ((List.forall₂_and_left _ _).mpr ⟨small, made⟩).imp ?_
  rintro form located ⟨⟨line, column⟩, compiled⟩
  obtain ⟨statement, span⟩ := ofForm_ok compiled
  rw [span]
  exact ⟨statement, spanOf_exact line column⟩

/-- Spans are exact and different from one another, and texts compile one below another. -/
theorem spans_compose (inModule : Bool) :
    (∀ text p, text.length < 2 ^ 32 → compile inModule text = .ok p →
      p.Tells inModule text ∧ p.spans.Pairwise (· < ·) ∧ p.spans.Nodup) ∧
    ∀ first second p q, compile inModule first = .ok p → compile inModule second = .ok q →
      compile inModule (first ++ "\n" ++ second) =
        .ok (p ++ q.map (Located.lower (first.toList.count '\n' + 1))) ∧
      ((first ++ "\n" ++ second).length < 2 ^ 32 → ∀ located ∈ q,
        (located.lower (first.toList.count '\n' + 1)).span.line.toNat =
          located.span.line.toNat + (first.toList.count '\n' + 1)) := by
  constructor
  · intro text p short h
    have increasing := (compile_places h short).1
    exact ⟨compile_tells h short, increasing, increasing.imp ne_of_irrefl⟩
  · intro first second p q h h'
    exact ⟨compile_lines h h', lower_exact h h'⟩

/-- Two forms on one line, behind one another without white space, and a text below them. -/
theorem spans_compose_four : ∃ p q : Program,
    compile false "[\"raise\",\"é\"]\"ü\"\n\n7" = .ok p ∧
      Program.Tells false "[\"raise\",\"é\"]\"ü\"\n\n7" p ∧
      p.spans = [⟨1, 1⟩, ⟨1, 14⟩, ⟨3, 1⟩] ∧ q.spans = [⟨1, 3⟩] ∧
      compile false ("[\"raise\",\"é\"]\"ü\"\n\n7" ++ "\n" ++ "  null") =
        .ok (p ++ q.map (Located.lower 3)) ∧
      ∀ located ∈ q, (located.lower 3).span.line.toNat = located.span.line.toNat + 3 := by
  have read : (compile false "[\"raise\",\"é\"]\"ü\"\n\n7").toOption.map Program.spans =
      some [⟨1, 1⟩, ⟨1, 14⟩, ⟨3, 1⟩] := by decide +kernel
  have read' : (compile false "  null").toOption.map Program.spans = some [⟨1, 3⟩] := by
    decide +kernel
  obtain ⟨p, compiled, spans⟩ := Option.map_eq_some_iff.mp read
  obtain ⟨q, compiled', spans'⟩ := Option.map_eq_some_iff.mp read'
  have first := eq_ok_of_toOption compiled
  have second := eq_ok_of_toOption compiled'
  obtain ⟨exact_, compose⟩ := spans_compose false
  obtain ⟨tells, _, _⟩ := exact_ _ p (by decide +kernel) first
  obtain ⟨whole, lines⟩ := compose _ _ p q first second
  exact ⟨p, q, first, tells, spans, spans', whole, lines (by decide +kernel)⟩

end Form
end ModuleSystem
