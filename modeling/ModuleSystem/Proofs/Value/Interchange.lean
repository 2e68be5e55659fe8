import ModuleSystem.Proofs.Json.Values
import ModuleSystem.Value

namespace ModuleSystem.Value

mutual
/-- The same value, every struct a map of its own. -/
def unmarked : Value → Value
  | .list items => .list (unmarkedItems items)
  | .struct _ fields => .struct none (unmarkedFields fields)
  | other => other

def unmarkedItems : List Value → List Value
  | [] => []
  | item :: rest => unmarked item :: unmarkedItems rest

def unmarkedFields : List (String × Value) → List (String × Value)
  | [] => []
  | (name, item) :: rest => (name, unmarked item) :: unmarkedFields rest
end

/-- Applies to the value of each field. -/
def onFields {α β : Type} (f : α → β) (fields : Fields α) : Fields β :=
  fields.map fun field => (field.1, f field.2)

theorem unmarkedItems_eq (items : List Value) : unmarkedItems items = items.map unmarked := by
  induction items with
  | nil => rfl
  | cons item rest ih => rw [unmarkedItems, ih, List.map_cons]

theorem unmarkedFields_eq (fields : Fields Value) :
    unmarkedFields fields = onFields unmarked fields := by
  induction fields with
  | nil => rfl
  | cons field rest ih =>
    rw [unmarkedFields, ih]
    rfl

theorem toJsonItems_eq (items : List Value) : toJsonItems items = items.map toJson := by
  induction items with
  | nil => rfl
  | cons item rest ih => rw [toJsonItems, ih, List.map_cons]

theorem toJsonFields_eq (fields : Fields Value) : toJsonFields fields = onFields toJson fields := by
  induction fields with
  | nil => rfl
  | cons field rest ih =>
    rw [toJsonFields, ih]
    rfl

theorem ofJsonItems_eq (items : List Json) : ofJsonItems items = items.map ofJson := by
  induction items with
  | nil => rfl
  | cons item rest ih => rw [ofJsonItems, ih, List.map_cons]

theorem ofJsonFields_eq (fields : Fields Json) : ofJsonFields fields = onFields ofJson fields := by
  induction fields with
  | nil => rfl
  | cons field rest ih =>
    rw [ofJsonFields, ih]
    rfl

@[simp] theorem unmarked_list (items : List Value) :
    (list items).unmarked = .list (items.map unmarked) := by
  rw [unmarked, unmarkedItems_eq]

@[simp] theorem unmarked_struct (mark : Option Nat) (fields : Fields Value) :
    (struct mark fields).unmarked = .struct none (onFields unmarked fields) := by
  rw [unmarked, unmarkedFields_eq]

@[simp] theorem toJson_list (items : List Value) :
    (list items).toJson = .array (items.map toJson) := by
  rw [toJson, toJsonItems_eq]

@[simp] theorem toJson_struct (mark : Option Nat) (fields : Fields Value) :
    (struct mark fields).toJson = .object (onFields toJson fields) := by
  rw [toJson, toJsonFields_eq]

@[simp] theorem ofJson_array (items : List Json) :
    ofJson (.array items) = .list (items.map ofJson) := by
  rw [ofJson, ofJsonItems_eq]

@[simp] theorem ofJson_object (fields : Fields Json) :
    ofJson (.object fields) = .struct none (onFields ofJson fields) := by
  rw [ofJson, ofJsonFields_eq]

theorem sorted_onFields {α β : Type} {f : α → β} {fields : Fields α} :
    (onFields f fields).Sorted ↔ fields.Sorted := by
  have names : (onFields f fields).map (·.1) = fields.map (·.1) := by
    rw [onFields, List.map_map]
    rfl
  rw [Fields.Sorted, names, Fields.Sorted]

mutual
/-- The interchange format has no marks. -/
theorem toJson_unmarked : ∀ v : Value, v.unmarked.toJson = v.toJson
  | .null | .bool _ | .int _ | .float _ | .string _ => by rw [unmarked] <;> simp
  | .list items => by rw [unmarked, toJson, toJson, toJsonItems_unmarked items]
  | .struct _ fields => by rw [unmarked, toJson, toJson, toJsonFields_unmarked fields]

theorem toJsonItems_unmarked : ∀ items : List Value,
    toJsonItems (unmarkedItems items) = toJsonItems items
  | [] => by rw [unmarkedItems]
  | item :: rest => by
    rw [unmarkedItems, toJsonItems, toJsonItems, toJson_unmarked item, toJsonItems_unmarked rest]

theorem toJsonFields_unmarked : ∀ fields : List (String × Value),
    toJsonFields (unmarkedFields fields) = toJsonFields fields
  | [] => by rw [unmarkedFields]
  | (name, item) :: rest => by
    rw [unmarkedFields, toJsonFields, toJsonFields, toJson_unmarked item,
      toJsonFields_unmarked rest]
end

theorem text_unmarked (v : Value) : v.unmarked.text = v.text := by
  rw [text, toJson_unmarked, text]

/-- All its floats are finite. -/
inductive Finite : Value → Prop
  | null : Finite .null
  | bool (b : Bool) : Finite (.bool b)
  | int (n : Int64) : Finite (.int n)
  | float {x : Float} (finite : x.isFinite = true) : Finite (.float x)
  | string (s : String) : Finite (.string s)
  | list {items : List Value} (inner : ∀ v ∈ items, Finite v) : Finite (.list items)
  | struct (mark : Option Nat) {fields : Fields Value} (inner : ∀ field ∈ fields, Finite field.2) :
      Finite (.struct mark fields)

theorem Finite.unmarked {v : Value} (h : v.Finite) : v.unmarked.Finite := by
  induction h with
  | null => exact .null
  | bool b => exact .bool b
  | int n => exact .int n
  | float finite => exact .float finite
  | string s => exact .string s
  | list _ ih =>
    rw [unmarked_list]
    exact .list (List.forall_mem_map.mpr ih)
  | struct mark _ ih =>
    rw [unmarked_struct]
    exact .struct none (List.forall_mem_map.mpr ih)

/-- Integers of a word are integers again. -/
theorem ofJsonInt_toInt (n : Int64) : ofJsonInt n.toInt = .int n := by
  have range : Int64.minValue.toInt ≤ n.toInt ∧ n.toInt ≤ Int64.maxValue.toInt := by
    constructor
    · exact n.minValue_le_toInt
    · exact n.toInt_le
  rw [ofJsonInt, if_pos range, Int64.ofInt_toInt]

/-- A value goes through interchange data as it is, but for its marks. -/
theorem ofJson_toJson {v : Value} (finite : v.Finite) : ofJson v.toJson = v.unmarked := by
  induction finite with
  | null | bool | string => rfl
  | int n => exact ofJsonInt_toInt n
  | float finite => rw [toJson, if_pos finite, ofJson, unmarked] <;> simp
  | list inner ih =>
    rw [toJson_list, ofJson_array, unmarked_list, List.map_map]
    exact congrArg Value.list (List.map_congr_left ih)
  | struct mark inner ih =>
    rw [toJson_struct, ofJson_object, unmarked_struct]
    refine congrArg (Value.struct none) ?_
    rw [onFields, onFields, onFields, List.map_map]
    exact List.map_congr_left fun field mem => congrArg (Prod.mk field.1) (ih field mem)

theorem Finite.unmarked_unmarked {v : Value} (h : v.Finite) :
    v.unmarked.unmarked = v.unmarked := by
  rw [← ofJson_toJson h.unmarked, toJson_unmarked, ofJson_toJson h]

/-- The fields of every struct are in order, and a mark stands for one map: `maps` says which. So it
is with all values that are made. -/
inductive Formed (maps : Nat → Fields Value) : Value → Prop
  | null : Formed maps .null
  | bool (b : Bool) : Formed maps (.bool b)
  | int (n : Int64) : Formed maps (.int n)
  | float (x : Float) : Formed maps (.float x)
  | string (s : String) : Formed maps (.string s)
  | list {items : List Value} (inner : ∀ v ∈ items, Formed maps v) : Formed maps (.list items)
  | struct {mark : Option Nat} {fields : Fields Value} (sorted : fields.Sorted)
      (marked : ∀ n, mark = some n → maps n = fields)
      (inner : ∀ field ∈ fields, Formed maps field.2) : Formed maps (.struct mark fields)

/-- No floats; lists and structs nest at most so deep. -/
inductive Exact : Nat → Value → Prop
  | null {n : Nat} : Exact n .null
  | bool {n : Nat} (b : Bool) : Exact n (.bool b)
  | int {n : Nat} (k : Int64) : Exact n (.int k)
  | string {n : Nat} (s : String) : Exact n (.string s)
  | list {n : Nat} {items : List Value} (inner : ∀ v ∈ items, Exact n v) :
      Exact (n + 1) (.list items)
  | struct {n : Nat} (mark : Option Nat) {fields : Fields Value}
      (inner : ∀ field ∈ fields, Exact n field.2) : Exact (n + 1) (.struct mark fields)

theorem Exact.finite {n : Nat} {v : Value} (h : Exact n v) : v.Finite := by
  induction h with
  | null => exact .null
  | bool b => exact .bool b
  | int k => exact .int k
  | string s => exact .string s
  | list _ ih => exact .list ih
  | struct mark _ ih => exact .struct mark ih

/-- A finite float is equal to itself. -/
theorem beq_self_of_isFinite {x : Float} (finite : x.isFinite = true) : (x == x) = true := by
  have number : x.toModel.unpack.isFinite = true := finite
  change x.toModel.unpack.beq x.toModel.unpack = true
  generalize x.toModel.unpack = u at number
  cases u with
  | infinity s => cases s <;> rfl
  | notANumber => cases number
  | zero s => cases s <;> rfl
  | finite s => cases s <;> simp [Float.Model.UnpackedFloat.beq, Float.Model.UnpackedFloat.compare]

/-- Items that are the same but for their marks. -/
theorem beqList_of_unmarked {items items' : List Value}
    (each : ∀ v ∈ items, ∀ w, v.unmarked = w.unmarked → beq v w = true)
    (same : items.map unmarked = items'.map unmarked) : beqList items items' = true := by
  induction items generalizing items' with
  | nil =>
    obtain rfl := List.map_eq_nil_iff.mp same.symm
    rfl
  | cons v rest ih =>
    obtain ⟨w, rest', rfl, first, others⟩ := List.map_eq_cons_iff.mp same.symm
    rw [beqList, each v List.mem_cons_self w first.symm,
      ih (fun v mem => each v (List.mem_cons_of_mem _ mem)) others.symm]
    rfl

theorem beqFields_of_unmarked {fields fields' : Fields Value}
    (each : ∀ field ∈ fields, ∀ w, field.2.unmarked = w.unmarked → beq field.2 w = true)
    (same : onFields unmarked fields = onFields unmarked fields') :
    beqFields fields fields' = true := by
  induction fields generalizing fields' with
  | nil =>
    obtain rfl := List.map_eq_nil_iff.mp same.symm
    rfl
  | cons field rest ih =>
    obtain ⟨⟨name, w⟩, rest', rfl, first, others⟩ := List.map_eq_cons_iff.mp same.symm
    obtain ⟨rfl, first⟩ := Prod.mk.inj first
    rw [beqFields, each field List.mem_cons_self w first.symm,
      ih (fun field mem => each field (List.mem_cons_of_mem _ mem)) others.symm]
    simp

/-- Values that are the same but for their marks are equal, where no float differs from itself. -/
theorem beq_of_unmarked {v w : Value} (finite : v.Finite) (same : v.unmarked = w.unmarked) :
    (v == w) = true := by
  change beq v w = true
  induction finite generalizing w with
  | null | bool b | int n | string s =>
    cases w <;> simp [unmarked] at same
    simp [beq, same]
  | float finite =>
    cases w <;> simp [unmarked] at same
    subst same
    rw [beq, beq_self_of_isFinite finite]
  | list inner ih =>
    cases w with
    | list items' =>
      rw [unmarked_list, unmarked_list, list.injEq] at same
      rw [beq]
      exact beqList_of_unmarked (fun v mem _ => ih v mem) same
    | _ => simp [unmarked] at same
  | struct mark inner ih =>
    cases w with
    | struct mark' fields' =>
      rw [unmarked_struct, unmarked_struct, struct.injEq] at same
      rw [beq, beqFields_of_unmarked (fun field mem _ => ih field mem) same.2, Bool.or_true]
    | _ => simp [unmarked] at same

section Coherent

variable {maps : Nat → Fields Value}

theorem map_eq_of_beqList {f : Value → Value} {items items' : List Value}
    (each : ∀ v ∈ items, ∀ w ∈ items', beq v w = true → f v = f w)
    (equal : beqList items items' = true) : items.map f = items'.map f := by
  induction items generalizing items' with
  | nil =>
    cases items' with
    | nil => rfl
    | cons w rest' => cases equal
  | cons v rest ih =>
    cases items' with
    | nil => cases equal
    | cons w rest' =>
      rw [beqList, Bool.and_eq_true] at equal
      have first := each v List.mem_cons_self w List.mem_cons_self equal.1
      have others := ih (fun v mem w mem' =>
        each v (List.mem_cons_of_mem _ mem) w (List.mem_cons_of_mem _ mem')) equal.2
      rw [List.map_cons, List.map_cons, first, others]

theorem onFields_eq_of_beqFields {f : Value → Value} {fields fields' : Fields Value}
    (each : ∀ field ∈ fields, ∀ field' ∈ fields', beq field.2 field'.2 = true →
      f field.2 = f field'.2)
    (equal : beqFields fields fields' = true) : onFields f fields = onFields f fields' := by
  induction fields generalizing fields' with
  | nil =>
    cases fields' with
    | nil => rfl
    | cons field' rest' => cases equal
  | cons field rest ih =>
    cases fields' with
    | nil => cases equal
    | cons field' rest' =>
      rw [beqFields, Bool.and_eq_true, Bool.and_eq_true, beq_iff_eq] at equal
      obtain ⟨⟨name, value⟩, equal⟩ := equal
      have first := each field List.mem_cons_self field' List.mem_cons_self value
      have others := ih (fun field mem field' mem' =>
        each field (List.mem_cons_of_mem _ mem) field' (List.mem_cons_of_mem _ mem')) equal
      rw [onFields, List.map_cons, ← onFields, others, first, name]
      rfl

/-- Equal values are the same but for their marks, where there are no floats and a mark stands for
one map. -/
theorem unmarked_of_beq {n : Nat} {v w : Value} (exact : v.Exact n) (formed : v.Formed maps)
    (formed' : w.Formed maps) (equal : (v == w) = true) : v.unmarked = w.unmarked := by
  change beq v w = true at equal
  induction exact generalizing w with
  | null | bool | int | string =>
    cases w <;> simp [beq] at equal
    simp [unmarked, equal]
  | list inner ih =>
    cases formed with
    | list formed =>
      cases formed' with
      | list formed' =>
        rw [beq] at equal
        rw [unmarked_list, unmarked_list]
        refine congrArg Value.list (map_eq_of_beqList ?_ equal)
        intro v mem w mem' same
        exact ih v mem (formed v mem) (formed' w mem') same
      | _ => cases equal
  | struct mark inner ih =>
    cases formed with
    | struct _ marked formed =>
      cases formed' with
      | struct _ marked' formed' =>
        rw [beq, Bool.or_eq_true, Bool.and_eq_true, Option.isSome_iff_exists] at equal
        rw [unmarked_struct, unmarked_struct]
        obtain ⟨⟨n, here⟩, one⟩ | equal := equal
        · -- Both are the map of that mark.
          rw [beq_iff_eq] at one
          rw [← marked n here, ← marked' n (one ▸ here)]
        · refine congrArg (Value.struct none) (onFields_eq_of_beqFields ?_ equal)
          intro field mem field' mem' same
          exact ih field mem (formed field mem) (formed' field' mem') same
      | _ => cases equal

end Coherent

/-- The text of a value without floats says all of it. -/
theorem Exact.toJson {maps : Nat → Fields Value} {n : Nat} {v : Value} (exact : v.Exact n)
    (formed : v.Formed maps) : v.toJson.Exact n := by
  induction exact with
  | null => exact .null
  | bool b => exact .bool b
  | int k =>
    have low : -0x8000000000000000 ≤ k.toInt := k.minValue_le_toInt
    have high : k.toInt ≤ 0x7fffffffffffffff := k.toInt_le
    have word : Json.largestWord = 0xffffffffffffffff := rfl
    exact .int low (by omega)
  | string s => exact .string s
  | list inner ih =>
    cases formed with
    | list formed =>
      rw [toJson_list]
      exact .array (List.forall_mem_map.mpr fun v mem => ih v mem (formed v mem))
  | struct mark inner ih =>
    cases formed with
    | struct sorted _ formed =>
      rw [toJson_struct]
      exact .object (sorted_onFields.mpr sorted)
        (List.forall_mem_map.mpr fun field mem => ih field mem (formed field mem))

section Interchange

variable {maps : Nat → Fields Value} {v w : Value}

theorem ofText_text (formed : v.Formed maps) (exact : v.Exact 127) :
    Json.ofText v.text = .ok v.toJson :=
  Json.ofText_compact (exact.toJson formed)

/-- Texts tell values apart, but for their marks. -/
theorem text_eq_iff (formed : v.Formed maps) (formed' : w.Formed maps) (exact : v.Exact 127)
    (exact' : w.Exact 127) : v.text = w.text ↔ v.unmarked = w.unmarked := by
  constructor
  · intro same
    have read := ofText_text formed exact
    rw [same, ofText_text formed' exact', Except.ok.injEq] at read
    rw [← ofJson_toJson exact.finite, ← ofJson_toJson exact'.finite, read]
  · intro same
    rw [← text_unmarked v, same, text_unmarked]

/-- A value whose floats are finite comes back from interchange data as an equal value, the same down
to its last number but for its marks. Without floats, and with no more than 127 levels of lists and
structs, it comes back from its text as well, and prints that text again. Two such values print the
same text just when they are equal. -/
theorem survives_interchange (formed : v.Formed maps) :
    (v.Finite → ofJson v.toJson = v.unmarked ∧ (ofJson v.toJson == v) = true) ∧
      (v.Exact 127 →
        (∃ j, Json.ofText v.text = .ok j ∧ ofJson j = v.unmarked ∧ (ofJson j == v) = true ∧
          (ofJson j).text = v.text) ∧
        ∀ w : Value, w.Formed maps → w.Exact 127 → (v.text = w.text ↔ (v == w) = true)) := by
  have equal : v.Finite → (ofJson v.toJson == v) = true := by
    intro finite
    rw [ofJson_toJson finite]
    exact beq_of_unmarked finite.unmarked finite.unmarked_unmarked
  refine ⟨fun finite => ⟨ofJson_toJson finite, equal finite⟩, fun exact => ⟨?_, ?_⟩⟩
  · refine ⟨v.toJson, ofText_text formed exact, ofJson_toJson exact.finite, equal exact.finite, ?_⟩
    rw [ofJson_toJson exact.finite, text_unmarked]
  · intro w formed' exact'
    rw [text_eq_iff formed formed' exact exact']
    constructor
    · exact beq_of_unmarked exact.finite
    · exact unmarked_of_beq exact formed formed'

/-- Both limits of integers and a string full of escapes, in a struct with a mark and in one
without; and a whole float next to the integer. -/
theorem survives_interchange_limits :
    let fields : Fields Value := [("limits", .list [.int Int64.minValue, .int Int64.maxValue]),
      ("quoted", .string "\x22\x5c\n\x01é")]
    let maps : Nat → Fields Value := fun _ => fields
    let v : Value := .struct (some 0) fields
    let w : Value := .struct none fields
    let mixed : Value := .list [.float 1, .int 1]
    v.Formed maps ∧ v.Exact 127 ∧ w.Formed maps ∧ w.Exact 127 ∧ mixed.Formed maps ∧ mixed.Finite ∧
      (∃ j, Json.ofText v.text = .ok j ∧ ofJson j = v.unmarked ∧ (ofJson j == v) = true ∧
        (ofJson j).text = v.text) ∧
      (v.text = w.text ↔ (v == w) = true) ∧
      ofJson mixed.toJson = mixed.unmarked ∧ (ofJson mixed.toJson == mixed) = true := by
  intro fields maps v w mixed
  have sorted : fields.Sorted := by
    simp only [Fields.Sorted, fields, List.map_cons, List.map_nil, List.pairwise_pair]
    decide
  have inner : ∀ field ∈ fields, field.2.Formed maps := by
    simp only [fields, List.forall_mem_cons]
    refine ⟨.list ?_, .string _, List.forall_mem_nil _⟩
    simp only [List.forall_mem_cons]
    exact ⟨.int _, .int _, List.forall_mem_nil _⟩
  have shallow : ∀ field ∈ fields, field.2.Exact 126 := by
    simp only [fields, List.forall_mem_cons]
    refine ⟨.list ?_, .string _, List.forall_mem_nil _⟩
    simp only [List.forall_mem_cons]
    exact ⟨.int _, .int _, List.forall_mem_nil _⟩
  have formed : v.Formed maps := .struct sorted (fun _ _ => rfl) inner
  have formed' : w.Formed maps := .struct sorted (by simp) inner
  have exact : v.Exact 127 := .struct (some 0) shallow
  have exact' : w.Exact 127 := .struct none shallow
  have formed_mixed : mixed.Formed maps := by
    apply Formed.list
    simp only [List.forall_mem_cons]
    exact ⟨.float _, .int _, List.forall_mem_nil _⟩
  have finite : mixed.Finite := by
    apply Finite.list
    simp only [List.forall_mem_cons]
    exact ⟨.float (by decide), .int _, List.forall_mem_nil _⟩
  obtain ⟨back, apart⟩ := (survives_interchange formed).2 exact
  obtain ⟨same, equal⟩ := (survives_interchange formed_mixed).1 finite
  exact ⟨formed, exact, formed', exact', formed_mixed, finite, back, apart w formed' exact', same,
    equal⟩

end Interchange

end ModuleSystem.Value
