import ModuleSystem.Proofs.Value.FieldMaps
import ModuleSystem.Proofs.Value.Made
import ModuleSystem.Proofs.Value.Zeros

namespace ModuleSystem.Value

variable {v : Value} {fields : Fields Value} {name other : String} {mark fresh : Option Nat}

theorem structPut_struct : structPut (.struct mark fields) (.string name) v fresh =
    .ok (.struct (if isBound fields name v then mark else fresh) (assign fields name v)) := rfl

theorem structGet_struct : structGet (.struct mark fields) (.string name) =
    .ok ((Fields.get? fields name).getD .null) := rfl

/-- An update with an equal value gives back its argument. -/
theorem structPut_of_isBound (bound : isBound fields name v = true) :
    structPut (.struct mark fields) (.string name) v fresh = .ok (.struct mark fields) := by
  rw [structPut_struct, assign, if_pos bound, if_pos bound]

theorem structGet_put_of_not_isBound (new : ¬isBound fields name v = true) :
    structGet (.struct mark (assign fields name v)) (.string name) = .ok v := by
  rw [structGet_struct, get?_assign_self, if_neg new, Option.getD_some]

theorem structGet_put_of_ne {mark' : Option Nat} (ne : name ≠ other) :
    structGet (.struct mark' (assign fields name v)) (.string other) =
      structGet (.struct mark fields) (.string other) := by
  rw [structGet_struct, structGet_struct, get?_assign_of_ne ne]

/-- A struct, and a name of a field. -/
def Accessible (s k : Value) : Prop :=
  (∃ mark fields, s = .struct mark fields) ∧ ∃ name, k = .string name

theorem fieldName_error_iff (k : Value) :
    (∃ e, fieldName k = .error e) ↔ ¬∃ name, k = .string name := by
  cases k <;> simp [fieldName]

theorem structPut_error_iff (s k v : Value) (fresh : Option Nat) :
    (∃ e, structPut s k v fresh = .error e) ↔ ¬Accessible s k := by
  cases s with
  | struct mark fields =>
    have same : (∃ e, structPut (.struct mark fields) k v fresh = .error e) ↔
        ∃ e, fieldName k = .error e := by
      cases named : fieldName k <;> simp [structPut, named, bind, Except.bind, pure, Except.pure]
    rw [same, fieldName_error_iff]
    simp [Accessible]
  | _ => simp [structPut, Accessible]

theorem structGet_error_iff (s k : Value) :
    (∃ e, structGet s k = .error e) ↔ ¬Accessible s k := by
  cases s with
  | struct mark fields =>
    have same : (∃ e, structGet (.struct mark fields) k = .error e) ↔
        ∃ e, fieldName k = .error e := by
      cases named : fieldName k <;> simp [structGet, named, bind, Except.bind, pure, Except.pure]
    rw [same, fieldName_error_iff]
    simp [Accessible]
  | _ => simp [structGet, Accessible]

/-- An update of a struct succeeds, and what it puts into a field is read from there, exactly,
unless the field has an equal value: then the struct is given back as it is, and what is read
differs from what was put at most in the signs of zeros. The other fields are as before. Updates and
reads fail for what is no struct and for what is no name, and never else. -/
theorem field_laws (s k v : Value) (fresh : Option Nat) :
    (∀ mark fields name, s = .struct mark fields → k = .string name →
      ∃ t w, structPut s k v fresh = .ok t ∧ structGet t k = .ok w ∧
        ((∀ old, Fields.get? fields name = some old → (old == v) = false) →
          w = v ∧ w.text = v.text) ∧
        (∀ old, Fields.get? fields name = some old → (old == v) = true → t = s ∧ w = old) ∧
        (∀ maps, s.Formed maps → v.Formed maps → w.unsigned = v.unsigned) ∧
        ∀ other, other ≠ name → structGet t (.string other) = structGet s (.string other)) ∧
      ((∃ e, structPut s k v fresh = .error e) ↔ ¬Accessible s k) ∧
      ((∃ e, structGet s k = .error e) ↔ ¬Accessible s k) := by
  refine ⟨?_, structPut_error_iff s k v fresh, structGet_error_iff s k⟩
  rintro mark fields name rfl rfl
  by_cases bound : isBound fields name v = true
  · obtain ⟨old, found, equal⟩ := isBound_iff.mp bound
    have read : structGet (.struct mark fields) (.string name) = .ok old := by
      rw [structGet_struct, found, Option.getD_some]
    refine ⟨_, old, structPut_of_isBound bound, read, ?_, ?_, ?_, ?_⟩
    · intro new
      rw [new old found] at equal
      cases equal
    · intro old' found' _
      rw [found] at found'
      exact ⟨rfl, Option.some.inj found'⟩
    · intro maps formed formed'
      exact unsigned_of_beq (structGet_formed formed read) formed' equal
    · intro other _
      rfl
  · refine ⟨_, v, structPut_struct, structGet_put_of_not_isBound bound, ?_, ?_, ?_, ?_⟩
    · intro _
      exact ⟨rfl, rfl⟩
    · intro old found equal
      exact absurd (isBound_iff.mpr ⟨old, found, equal⟩) bound
    · intro _ _ _
      rfl
    · intro other ne
      exact structGet_put_of_ne ne.symm

/-- A zero on a zero of the other sign, beside another field. -/
theorem field_laws_zeros :
    let maps : Nat → Fields Value := fun _ => []
    let fields : Fields Value := [("items", .list [.int 1]), ("k", .float 0)]
    let s : Value := .struct none fields
    let v : Value := .float (-0)
    s.Formed maps ∧ v.Formed maps ∧ ∃ t w, structPut s (.string "k") v (some 0) = .ok t ∧
      structGet t (.string "k") = .ok w ∧ w.unsigned = v.unsigned ∧
      structGet t (.string "items") = .ok (.list [.int 1]) := by
  intro maps fields s v
  have inner : ∀ field ∈ fields, field.2.Formed maps := by
    simp only [fields, List.forall_mem_cons]
    refine ⟨.list ?_, .float _, List.forall_mem_nil _⟩
    simp only [List.forall_mem_cons]
    exact ⟨.int _, List.forall_mem_nil _⟩
  have formed : s.Formed maps := .struct (by decide) (by simp) inner
  have formed' : v.Formed maps := .float _
  obtain ⟨laws, -⟩ := field_laws s (.string "k") v (some 0)
  obtain ⟨t, w, put, get, -, -, same, others⟩ := laws _ _ _ rfl rfl
  exact ⟨formed, formed', t, w, put, get, same maps formed formed', others "items" (by decide)⟩

/-- A zero stays where a zero of the other sign is put, and has another text. -/
theorem zero_stays :
    structPut (.struct none [("k", .float 0)]) (.string "k") (.float (-0)) none =
        .ok (.struct none [("k", .float 0)]) ∧
      structGet (.struct none [("k", .float 0)]) (.string "k") = .ok (.float 0) ∧
      (Value.float 0).text = "0.0" ∧ (Value.float (-0)).text = "-0.0" :=
  ⟨structPut_of_isBound rfl, rfl, by decide +kernel, by decide +kernel⟩

end ModuleSystem.Value
