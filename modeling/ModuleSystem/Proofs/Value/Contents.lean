import ModuleSystem.Proofs.Trie.Content
import ModuleSystem.Proofs.Value.FieldMaps
import ModuleSystem.Proofs.Value.Made
import ModuleSystem.Proofs.Value.Zeros

/-! Equality of values is the same in both directions. What is equal without its marks is equal with
any marks. The marks tell more than the contents only where a NaN is inside a struct: such a struct
differs from another one with the same fields, but not from itself. -/

namespace ModuleSystem.Value

open Float.Model (UnpackedFloat)

theorem float_beq_comm (x y : Float) : (x == y) = (y == x) := by
  have symm : ∀ u u' : UnpackedFloat, u.compare u' = some .eq → u'.compare u = some .eq := by
    intro u u' equal
    obtain ⟨rfl, _⟩ | ⟨⟨s, rfl⟩, s', rfl⟩ := eq_of_compare equal
    · exact equal
    · rfl
  change (x.toModel.unpack.compare y.toModel.unpack == some .eq) =
    (y.toModel.unpack.compare x.toModel.unpack == some .eq)
  rw [Bool.eq_iff_iff, beq_iff_eq, beq_iff_eq]
  exact ⟨symm _ _, symm _ _⟩

mutual
theorem beq_comm : ∀ v w : Value, beq v w = beq w v
  | .null, w => by cases w <;> rfl
  | .bool a, w => by cases w <;> simp [beq, BEq.comm]
  | .int a, w => by cases w <;> simp [beq, BEq.comm]
  | .float a, w => by cases w <;> simp [beq, float_beq_comm]
  | .string a, w => by cases w <;> simp [beq, BEq.comm]
  | .list as, w => by
    cases w with
    | list bs => rw [beq, beq, beqList_comm as bs]
    | _ => rfl
  | .struct m as, w => by
    cases w with
    | struct n bs =>
      have marks : (m.isSome && m == n) = (n.isSome && n == m) := by
        cases m <;> cases n <;> simp [BEq.comm]
      rw [beq, beq, beqFields_comm as bs, marks]
    | _ => rfl

theorem beqList_comm : ∀ as bs : List Value, beqList as bs = beqList bs as
  | [], bs => by cases bs <;> rfl
  | a :: as, bs => by
    cases bs with
    | nil => rfl
    | cons b bs => rw [beqList, beqList, beq_comm a b, beqList_comm as bs]

theorem beqFields_comm : ∀ as bs : List (String × Value), beqFields as bs = beqFields bs as
  | [], bs => by cases bs <;> rfl
  | (j, a) :: as, bs => by
    cases bs with
    | nil => rfl
    | cons field bs => rw [beqFields, beqFields, beq_comm a field.2, beqFields_comm as bs, BEq.comm]
end

mutual
/-- Marks make more values equal, not fewer. -/
theorem beq_of_beq_unmarked : ∀ v w : Value, beq v.unmarked w.unmarked = true → beq v w = true
  | .null, w | .bool _, w | .int _, w | .float _, w | .string _, w => by
    cases w <;> simp [unmarked, beq]
  | .list as, w => by
    cases w with
    | list bs =>
      rw [unmarked, unmarked, beq, beq]
      exact beqList_of_beq_unmarked as bs
    | _ => simp [unmarked, beq]
  | .struct m as, w => by
    cases w with
    | struct n bs =>
      rw [unmarked, unmarked, beq, beq, Option.isSome_none, Bool.false_and, Bool.false_or]
      intro equal
      rw [beqFields_of_beq_unmarked as bs equal, Bool.or_true]
    | _ => simp [unmarked, beq]

theorem beqList_of_beq_unmarked : ∀ as bs : List Value,
    beqList (unmarkedItems as) (unmarkedItems bs) = true → beqList as bs = true
  | [], bs => by cases bs <;> simp [unmarkedItems, beqList]
  | a :: as, bs => by
    cases bs with
    | nil => simp [unmarkedItems, beqList]
    | cons b bs =>
      rw [unmarkedItems, unmarkedItems, beqList, beqList, Bool.and_eq_true, Bool.and_eq_true]
      exact And.imp (beq_of_beq_unmarked a b) (beqList_of_beq_unmarked as bs)

theorem beqFields_of_beq_unmarked : ∀ as bs : List (String × Value),
    beqFields (unmarkedFields as) (unmarkedFields bs) = true → beqFields as bs = true
  | [], bs => by cases bs <;> simp [unmarkedFields, beqFields]
  | (j, a) :: as, bs => by
    cases bs with
    | nil => simp [unmarkedFields, beqFields]
    | cons field bs =>
      simp only [unmarkedFields, beqFields, Bool.and_eq_true]
      rintro ⟨⟨name, value⟩, others⟩
      exact ⟨⟨name, beq_of_beq_unmarked a field.2 value⟩, beqFields_of_beq_unmarked as bs others⟩
end

mutual
/-- No float inside a struct is a NaN. The flag tells whether the value itself is inside of one. -/
def nanFree : Bool → Value → Bool
  | inside, .float x => !inside || x == x
  | inside, .list items => nanFreeItems inside items
  | _, .struct _ fields => nanFreeFields fields
  | _, _ => true

def nanFreeItems : Bool → List Value → Bool
  | _, [] => true
  | inside, item :: rest => nanFree inside item && nanFreeItems inside rest

def nanFreeFields : List (String × Value) → Bool
  | [] => true
  | (_, item) :: rest => nanFree true item && nanFreeFields rest
end

mutual
theorem nanFree_unmarked : ∀ (inside : Bool) (v : Value),
    nanFree inside v.unmarked = nanFree inside v
  | _, .null | _, .bool _ | _, .int _ | _, .float _ | _, .string _ => by simp [unmarked]
  | inside, .list items => by rw [unmarked, nanFree, nanFree, nanFreeItems_unmarked inside items]
  | _, .struct _ fields => by rw [unmarked, nanFree, nanFree, nanFreeFields_unmarked fields]

theorem nanFreeItems_unmarked : ∀ (inside : Bool) (items : List Value),
    nanFreeItems inside (unmarkedItems items) = nanFreeItems inside items
  | _, [] => rfl
  | inside, item :: rest => by
    rw [unmarkedItems, nanFreeItems, nanFreeItems, nanFree_unmarked inside item,
      nanFreeItems_unmarked inside rest]

theorem nanFreeFields_unmarked : ∀ fields : List (String × Value),
    nanFreeFields (unmarkedFields fields) = nanFreeFields fields
  | [] => rfl
  | (_, item) :: rest => by
    rw [unmarkedFields, nanFreeFields, nanFreeFields, nanFree_unmarked true item,
      nanFreeFields_unmarked rest]
end

mutual
theorem beq_self_of_nanFree : ∀ v : Value, nanFree true v = true → beq v v = true
  | .null => fun _ => rfl
  | .bool _ | .int _ | .string _ => by simp [beq]
  | .float _ => fun free => free
  | .list items => beqList_self_of_nanFree items
  | .struct _ fields => by
    intro free
    rw [beq, beqFields_self_of_nanFree fields free, Bool.or_true]

theorem beqList_self_of_nanFree : ∀ items : List Value,
    nanFreeItems true items = true → beqList items items = true
  | [] => fun _ => rfl
  | item :: rest => by
    rw [nanFreeItems, beqList, Bool.and_eq_true, Bool.and_eq_true]
    exact And.imp (beq_self_of_nanFree item) (beqList_self_of_nanFree rest)

theorem beqFields_self_of_nanFree : ∀ fields : List (String × Value),
    nanFreeFields fields = true → beqFields fields fields = true
  | [] => fun _ => rfl
  | (_, item) :: rest => by
    rw [nanFreeFields, beqFields, beq_self_eq_true, Bool.true_and, Bool.and_eq_true,
      Bool.and_eq_true]
    exact And.imp (beq_self_of_nanFree item) (beqFields_self_of_nanFree rest)
end

section Formed

variable {maps : Nat → Fields Value}

mutual
/-- Without a NaN inside a struct, what is equal with its marks is equal without them. -/
theorem beq_unmarked_of_beq : ∀ (inside : Bool) (v w : Value), nanFree inside v = true →
    v.Formed maps → w.Formed maps → beq v w = true → beq v.unmarked w.unmarked = true
  | _, .null, w | _, .bool _, w | _, .int _, w | _, .float _, w | _, .string _, w => by
    cases w <;> simp [unmarked, beq]
  | inside, .list as, w => by
    intro free formed formed' equal
    cases formed' with
    | list inner' =>
      cases formed with
      | list inner =>
        rw [beq] at equal
        rw [unmarked, unmarked, beq]
        exact beqList_unmarked_of_beq inside as _ free inner inner' equal
    | _ => cases equal
  | inside, .struct m as, w => by
    intro free formed formed' equal
    cases formed' with
    | @struct n bs _ marked' inner' =>
      cases formed with
      | struct _ marked inner =>
        rw [nanFree] at free
        rw [beq, Bool.or_eq_true, Bool.and_eq_true, Option.isSome_iff_exists] at equal
        rw [unmarked, unmarked, beq, Option.isSome_none, Bool.false_and, Bool.false_or]
        obtain ⟨⟨k, here⟩, one⟩ | equal := equal
        · -- Both are the map of that mark, in which no value differs from itself.
          rw [beq_iff_eq] at one
          rw [← marked k here, ← marked' k (one ▸ here)]
          apply beqFields_self_of_nanFree
          rw [nanFreeFields_unmarked, marked k here, free]
        · exact beqFields_unmarked_of_beq as bs free inner inner' equal
    | _ => cases equal

theorem beqList_unmarked_of_beq : ∀ (inside : Bool) (as bs : List Value),
    nanFreeItems inside as = true → (∀ v ∈ as, v.Formed maps) → (∀ v ∈ bs, v.Formed maps) →
      beqList as bs = true → beqList (unmarkedItems as) (unmarkedItems bs) = true
  | _, [], bs => by cases bs <;> simp [unmarkedItems, beqList]
  | inside, a :: as, bs => by
    intro free formed formed' equal
    cases bs with
    | nil => cases equal
    | cons b bs =>
      rw [nanFreeItems, Bool.and_eq_true] at free
      rw [List.forall_mem_cons] at formed formed'
      rw [beqList, Bool.and_eq_true] at equal
      rw [unmarkedItems, unmarkedItems, beqList, Bool.and_eq_true]
      exact ⟨beq_unmarked_of_beq inside a b free.1 formed.1 formed'.1 equal.1,
        beqList_unmarked_of_beq inside as bs free.2 formed.2 formed'.2 equal.2⟩

theorem beqFields_unmarked_of_beq : ∀ as bs : List (String × Value),
    nanFreeFields as = true → (∀ field ∈ as, field.2.Formed maps) →
      (∀ field ∈ bs, field.2.Formed maps) →
      beqFields as bs = true → beqFields (unmarkedFields as) (unmarkedFields bs) = true
  | [], bs => by cases bs <;> simp [unmarkedFields, beqFields]
  | (j, a) :: as, bs => by
    intro free formed formed' equal
    cases bs with
    | nil => cases equal
    | cons field bs =>
      rw [nanFreeFields, Bool.and_eq_true] at free
      rw [List.forall_mem_cons] at formed formed'
      rw [beqFields, Bool.and_eq_true, Bool.and_eq_true] at equal
      rw [unmarkedFields, unmarkedFields, beqFields, Bool.and_eq_true, Bool.and_eq_true]
      exact ⟨⟨equal.1.1, beq_unmarked_of_beq true a field.2 free.1 formed.1 formed'.1 equal.1.2⟩,
        beqFields_unmarked_of_beq as bs free.2 formed.2 formed'.2 equal.2⟩
end

theorem beq_unmarked {v w : Value} (free : nanFree false v = true) (formed : v.Formed maps)
    (formed' : w.Formed maps) : (v == w) = (v.unmarked == w.unmarked) := by
  rw [Bool.eq_iff_iff]
  exact ⟨beq_unmarked_of_beq false v w free formed formed', beq_of_beq_unmarked v w⟩

end Formed

/-- Whatever tries hold the fields, equality is the one of the tries, a common root included. -/
theorem Stands.equal {t u : Trie String Value} {fields fields' : Fields Value} (h : Stands t fields)
    (h' : Stands u fields') (mark mark' : Option Nat) :
    (Value.struct mark fields == .struct mark' fields') =
      Trie.equal (mark.isSome && mark == mark') t u := by
  rw [Trie.equal, h.beq h', beqFields_comm]
  rfl

/-- What equality of values goes by. -/
structure EqualByContents (vs : List Value) : Prop where
  comm : ∀ v w : Value, (v == w) = (w == v)
  /-- Equal contents are enough, however the values were made. -/
  enough : ∀ v w : Value, (v.unmarked == w.unmarked) = true → (v == w) = true
  /-- Only signs of zeros tell equal values apart. -/
  needed : ∀ v ∈ vs, ∀ w ∈ vs, (v == w) = true → v.unsigned = w.unsigned
  /-- Without a NaN inside a struct, contents alone decide. -/
  decided : ∀ v ∈ vs, ∀ w ∈ vs, nanFree false v = true → (v == w) = (v.unmarked == w.unmarked)
  /-- So it does not matter then how both of them were made. -/
  remade : ∀ v ∈ vs, ∀ w ∈ vs, ∀ v' ∈ vs, ∀ w' ∈ vs, nanFree false v = true →
    v'.unmarked = v.unmarked → w'.unmarked = w.unmarked → (v' == w') = (v == w)
  tries : ∀ t u fields fields' mark mark', Stands t fields → Stands u fields' →
    (Value.struct mark fields == .struct mark' fields') =
      Trie.equal (mark.isSome && mark == mark') t u

/-- Equality of values that are made from data, floats, lists and updates of structs. It is the same
in both directions, and goes by the contents alone unless a NaN is inside a struct. -/
theorem equality_by_contents {vs : List Value} (made : Made vs) : EqualByContents vs where
  comm := beq_comm
  enough := beq_of_beq_unmarked
  needed v mem w mem' equal := by
    obtain ⟨maps, formed⟩ := made.formed
    exact unsigned_of_beq (formed v mem) (formed w mem') equal
  decided v mem w mem' free := by
    obtain ⟨maps, formed⟩ := made.formed
    exact beq_unmarked free (formed v mem) (formed w mem')
  remade v mem w mem' v' mem_v w' mem_w free same same' := by
    obtain ⟨maps, formed⟩ := made.formed
    have free' : nanFree false v' = true := by
      rw [← nanFree_unmarked, same, nanFree_unmarked, free]
    rw [beq_unmarked free' (formed v' mem_v) (formed w' mem_w), same, same',
      beq_unmarked free (formed v mem) (formed w mem')]
  tries _ _ _ _ mark mark' stands stands' := stands.equal stands' mark mark'

/-- Two structs with the same field, one from data and one from an update, each in a list with a
NaN. -/
theorem equality_by_contents_two_ways :
    let read : Value := .struct none [("n", .int 1)]
    let updated : Value := .struct (some 0) [("n", .int 1)]
    let beside (v : Value) : Value := .list [v, .float (0 / 0)]
    let vs : List Value := [beside updated, beside read, .float (0 / 0), updated, .int 1,
      emptyStruct, read]
    Made vs ∧ (read == updated) = true ∧ (beside read == beside updated) = false ∧
      (beside updated == beside updated) = (beside read == beside read) := by
  intro read updated beside vs
  have one : Json.Ordered (.object [("n", .int 1)]) := .object (by decide) fun field mem => by
    rw [List.mem_singleton.mp mem]
    exact .int 1
  have empty : Json.ofText "\x7b\x7d" = .ok (.object []) := rfl
  have data : Made [.int 1, emptyStruct, read] :=
    .data (j := .int 1) (.text (.data (j := .object [("n", .int 1)]) .start one) empty) (.int 1)
  have lacks : ∀ v ∈ [.int 1, emptyStruct, read], v.Lacks 0 := by
    simp only [List.forall_mem_cons]
    exact ⟨.int 1, .struct nofun nofun, .struct nofun (by simp [Lacks.int]), List.forall_mem_nil _⟩
  have put : structPut emptyStruct (.string "n") (.int 1) (some 0) = .ok updated := rfl
  have structs : Made [updated, .int 1, emptyStruct, read] := by
    refine data.put (by simp) (by simp) ?_ put
    rintro n ⟨⟩
    exact lacks
  have made : Made vs := ((structs.float (0 / 0)).list (by simp)).list (by simp)
  have equality := equality_by_contents made
  refine ⟨made, equality.enough read updated rfl, by decide +kernel, ?_⟩
  exact equality.remade (beside read) (by simp [vs]) (beside read) (by simp [vs])
    (beside updated) (by simp [vs]) (beside updated) (by simp [vs]) rfl rfl rfl

/-- Two structs with a NaN in the same field, made by two updates of one struct: each of them is
equal to itself, but not to the other. -/
theorem nan_equal_to_itself :
    let nan : Value := .float (0 / 0)
    let s : Value := .struct (some 0) [("n", nan)]
    let s' : Value := .struct (some 1) [("n", nan)]
    Made [s', s, nan, emptyStruct] ∧ s'.unmarked = s.unmarked ∧ (s == s) = true ∧
      (s == s') = false ∧ (s' == s) = false := by
  intro nan s s'
  have before : Made [nan, emptyStruct] :=
    (Made.data (j := .object []) .start (.object .nil nofun)).float _
  have put (n : Nat) : structPut emptyStruct (.string "n") nan (some n) =
      .ok (.struct (some n) [("n", nan)]) := rfl
  have first : Made [s, nan, emptyStruct] := by
    refine before.put (by simp) (by simp) ?_ (put 0)
    rintro n ⟨⟩
    simp only [List.forall_mem_cons]
    exact ⟨.float _, .struct nofun nofun, List.forall_mem_nil _⟩
  have second : Made [s', s, nan, emptyStruct] := by
    refine first.put (by simp) (by simp) ?_ (put 1)
    rintro n ⟨⟩
    simp only [List.forall_mem_cons]
    refine ⟨.struct (by decide) ?_, .float _, .struct nofun nofun, List.forall_mem_nil _⟩
    simp only [List.forall_mem_cons]
    exact ⟨.float _, List.forall_mem_nil _⟩
  exact ⟨second, rfl, rfl, by decide +kernel, by decide +kernel⟩

end ModuleSystem.Value
