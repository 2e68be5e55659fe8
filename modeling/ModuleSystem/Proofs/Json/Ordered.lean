import ModuleSystem.Proofs.Fields
import ModuleSystem.Proofs.Json.Progress

namespace ModuleSystem.Json

/-- The fields of all its objects are in order. -/
inductive Ordered : Json → Prop
  | null : Ordered .null
  | bool (b : Bool) : Ordered (.bool b)
  | int (n : Int) : Ordered (.int n)
  | float (x : Float) : Ordered (.float x)
  | string (s : String) : Ordered (.string s)
  | array {items : List Json} (inner : ∀ j ∈ items, Ordered j) : Ordered (.array items)
  | object {fields : Fields Json} (sorted : fields.Sorted)
      (inner : ∀ field ∈ fields, Ordered field.2) : Ordered (.object fields)

theorem Number.ordered (n : Number) : Ordered n.toJson := by
  cases n with
  | int n => exact .int n
  | float x => exact .float x

/-- One more field, under a name of its own or in place of an earlier value. -/
theorem ordered_insert {fields : Fields Json} {name : String} {j : Json}
    (inner : ∀ field ∈ fields, Ordered field.2) (new : Ordered j) :
    ∀ field ∈ fields.insert name j, Ordered field.2 := by
  intro field mem
  obtain rfl | old := Fields.mem_insert mem
  · exact new
  · exact inner field old

/-- What one more unit of fuel adds to the reading of values, given that of their parts. -/
theorem value_ordered_step {fuel depth : Nat} {c c' : Cursor} {j : Json}
    (items : ∀ {depth first read read'} {c c' : Cursor},
      items fuel depth first read c = .ok (read', c') → (∀ j ∈ read, Ordered j) →
        ∀ j ∈ read', Ordered j)
    (members : ∀ {depth first} {read read' : Fields Json} {c c' : Cursor},
      members fuel depth first read c = .ok (read', c') → read.Sorted →
        (∀ field ∈ read, Ordered field.2) → read'.Sorted ∧ ∀ field ∈ read', Ordered field.2)
    (h : value (fuel + 1) depth c = .ok (j, c')) : Ordered j := by
  simp only [value] at h
  split at h
  · cases h
  split at h
  · obtain ⟨_, _, done⟩ := Except.of_bind_ok h
    cases done
    exact .null
  split at h
  · obtain ⟨_, _, done⟩ := Except.of_bind_ok h
    cases done
    exact .bool true
  split at h
  · obtain ⟨_, _, done⟩ := Except.of_bind_ok h
    cases done
    exact .bool false
  split at h
  · obtain ⟨⟨n, _⟩, _, done⟩ := Except.of_bind_ok h
    cases done
    exact n.ordered
  split at h
  · obtain ⟨⟨n, _⟩, _, done⟩ := Except.of_bind_ok h
    cases done
    exact n.ordered
  split at h
  · obtain ⟨⟨s, _⟩, _, done⟩ := Except.of_bind_ok h
    cases done
    exact .string s
  split at h
  · split at h
    · cases h
    · obtain ⟨⟨read, _⟩, found, done⟩ := Except.of_bind_ok h
      cases done
      have inner := items found (List.forall_mem_nil _)
      exact .array fun j mem => inner j (List.mem_reverse.mp mem)
  split at h
  · split at h
    · cases h
    · obtain ⟨⟨read, _⟩, found, done⟩ := Except.of_bind_ok h
      cases done
      obtain ⟨sorted, inner⟩ := members found Fields.sorted_nil (List.forall_mem_nil _)
      exact .object sorted inner
  · cases h

/-- The readers of values, items and fields keep what has been read in order. -/
theorem readers_ordered (fuel : Nat) :
    (∀ {depth} {c c' : Cursor} {j : Json}, value fuel depth c = .ok (j, c') → Ordered j) ∧
    (∀ {depth first read read'} {c c' : Cursor},
      items fuel depth first read c = .ok (read', c') → (∀ j ∈ read, Ordered j) →
        ∀ j ∈ read', Ordered j) ∧
    (∀ {depth first} {read read' : Fields Json} {c c' : Cursor},
      members fuel depth first read c = .ok (read', c') → read.Sorted →
        (∀ field ∈ read, Ordered field.2) → read'.Sorted ∧ ∀ field ∈ read', Ordered field.2) := by
  induction fuel with
  | zero => refine ⟨fun h => ?_, fun h => ?_, fun h => ?_⟩ <;> cases h
  | succ fuel ih =>
    obtain ⟨value, items, members⟩ := ih
    refine ⟨fun h => value_ordered_step items members h, ?_, ?_⟩
    · intro depth first read read' c c' h inner
      rw [Json.items] at h
      obtain ⟨⟨more, c₁⟩, asked, h⟩ := Except.of_bind_ok h
      simp only at h
      split at h
      · obtain ⟨⟨item, c₂⟩, found, h⟩ := Except.of_bind_ok h
        exact items h (List.forall_mem_cons.mpr ⟨value found, inner⟩)
      · cases h
        exact inner
    · intro depth first read read' c c' h sorted inner
      rw [Json.members] at h
      obtain ⟨⟨name, c₁⟩, asked, h⟩ := Except.of_bind_ok h
      cases name with
      | none =>
        cases h
        exact ⟨sorted, inner⟩
      | some name =>
        obtain ⟨c₂, _, h⟩ := Except.of_bind_ok h
        obtain ⟨⟨item, c₃⟩, found, h⟩ := Except.of_bind_ok h
        exact members h (Fields.sorted_insert sorted) (ordered_insert inner (value found))

theorem ofText_ordered {text : String} {j : Json} (h : ofText text = .ok j) : Ordered j := by
  obtain ⟨⟨read, c⟩, found, h⟩ := Except.of_bind_ok h
  obtain ⟨_, _, h⟩ := Except.of_bind_ok h
  cases h
  exact (readers_ordered _).1 found

end ModuleSystem.Json
