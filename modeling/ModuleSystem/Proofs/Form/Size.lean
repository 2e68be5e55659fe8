import ModuleSystem.Form.Compile
import ModuleSystem.Loading.Run
import ModuleSystem.Proofs.Json.Progress
import ModuleSystem.Proofs.Loading.Stack

namespace ModuleSystem

theorem Except.mapM_ok {ε α β : Type} {f : α → Except ε β} {l : List α} {out : List β}
    (h : l.mapM f = .ok out) : List.Forall₂ (fun a b => f a = .ok b) l out := by
  induction l generalizing out with
  | nil =>
    cases h
    exact .nil
  | cons a rest ih =>
    rw [List.mapM_cons] at h
    obtain ⟨b, first, h⟩ := of_bind_ok h
    obtain ⟨more, onward, h⟩ := of_bind_ok h
    cases h
    exact .cons first (ih onward)

theorem Except.mapM_of_forall₂ {ε α β : Type} {f : α → Except ε β} {l : List α} {out : List β}
    (h : List.Forall₂ (fun a b => f a = .ok b) l out) : l.mapM f = .ok out := by
  induction h with
  | nil => rfl
  | cons first _ ih =>
    rw [List.mapM_cons, first, ih]
    rfl

theorem eq_ok_of_toOption {ε α : Type} {x : Except ε α} {a : α} (h : x.toOption = some a) :
    x = .ok a := by
  cases x with
  | error => cases h
  | ok => exact congrArg _ (Option.some.inj h)

theorem formSize_eq (form : Form.Located) : formSize form = 1 + form.statement.required.length := by
  unfold formSize Form.Statement.required
  cases form.statement <;> rfl

namespace Form

/-- The steps that a program may take by itself. -/
def Program.size (p : Program) : Nat := (p.map formSize).sum

theorem Program.required_length_le (p : Program) : p.required.length ≤ p.size := by
  induction p with
  | nil => exact Nat.le_refl _
  | cons form rest ih =>
    simp only [required, size, List.flatMap_cons, List.length_append, List.map_cons,
      List.sum_cons, formSize_eq] at ih ⊢
    omega

/-- All statements but one require nothing, and that one comes from an array of as many items. -/
theorem Statement.ofJson_required {inModule : Bool} {j : Json} {statement : Statement}
    (h : ofJson inModule j = .ok statement) : statement.required.length < j.weight := by
  have pos := j.weight_pos
  unfold ofJson at h
  split at h
  · next operator args =>
    split at h
    · split at h
      · cases h
      · obtain ⟨paths, read, h⟩ := Except.of_bind_ok h
        cases h
        have same := (Except.mapM_ok read).length_eq
        simp only [required, Json.weight, List.length_cons]
        omega
    · suffices none : statement.required = [] by
        rw [none]
        exact pos
      split at h
      · split at h
        · obtain ⟨name, _, h⟩ := Except.of_bind_ok h
          split at h
          · cases h
          · obtain ⟨e, _, h⟩ := Except.of_bind_ok h
            cases h
            rfl
        · cases h
      split at h
      · cases h
      split at h
      · split at h
        · cases h
        · obtain ⟨names, _, h⟩ := Except.of_bind_ok h
          cases h
          rfl
      split at h
      · split at h
        · obtain ⟨text, _, h⟩ := Except.of_bind_ok h
          cases h
          rfl
        · cases h
      split at h
      · split at h
        · obtain ⟨e, _, h⟩ := Except.of_bind_ok h
          cases h
          rfl
        · cases h
      · obtain ⟨e, _, h⟩ := Except.of_bind_ok h
        cases h
        rfl
  · obtain ⟨e, _, h⟩ := Except.of_bind_ok h
    cases h
    exact pos

theorem size_le_totalWeight {inModule : Bool} {forms : List (Json.Position × Json)} {p : Program}
    (h : List.Forall₂ (fun form located => Located.ofForm inModule form = .ok located) forms p) :
    p.size ≤ Json.totalWeight forms := by
  induction h with
  | nil => exact Nat.le_refl _
  | @cons form located _ _ first _ ih =>
    have small : formSize located ≤ form.2.weight := by
      unfold Located.ofForm at first
      split at first
      · next statement made =>
        cases first
        rw [formSize_eq]
        have := Statement.ofJson_required made
        simp only
        omega
      · cases first
    simp only [Program.size, Json.totalWeight, List.map_cons, List.sum_cons] at ih ⊢
    omega

theorem compile_size {inModule : Bool} {text : String} {p : Program}
    (h : compile inModule text = .ok p) : p.size ≤ (Utf8.encode text).length := by
  obtain ⟨forms, read, made⟩ := Except.of_bind_ok h
  refine Nat.le_trans (size_le_totalWeight (Except.mapM_ok made)) ?_
  unfold formsOf at read
  split at read
  · next _ streamed =>
    cases read
    exact Json.stream_weight streamed
  · cases read

end Form
end ModuleSystem
