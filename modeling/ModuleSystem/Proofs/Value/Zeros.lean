import ModuleSystem.Proofs.Value.Interchange

/-! There are two zeros, which are equal. All other floats are equal only to themselves, or not even
to themselves. So equal values differ at most in the signs of their zeros, and in the marks of their
structs. -/

namespace ModuleSystem.Value

open Float.Model (Format UnpackedFloat)
open Float.Model.UnpackedFloat

section Bits

variable {b b' : BitVec Format.binary64.numBits}

theorem eq_of_parts (sign : unpackSign b = unpackSign b')
    (exponent : unpackExponent b = unpackExponent b')
    (mantissa : unpackMantissa b = unpackMantissa b') : b = b' := by
  have joined (b : BitVec Format.binary64.numBits) :
      unpackSign b ++ unpackExponent b ++ unpackMantissa b = b := by
    simp only [unpackSign, unpackExponent, unpackMantissa, BitVec.extractLsb]
    ext i bound
    grind
  rw [← joined b, ← joined b', sign, exponent, mantissa]

/-- The bits that a number was read from, apart from its sign: its exponent and its mantissa. -/
def partsOf : UnpackedFloat → Nat × Nat
  | .infinity _ => (2047, 0)
  | .finite _ m e _ => if m < 2 ^ 52 then (0, m) else ((e + 1075).toNat, m - 2 ^ 52)
  | .zero _ | .notANumber => (0, 0)

def signOf : UnpackedFloat → Sign
  | .infinity s | .zero s | .finite s _ _ _ => s
  | .notANumber => .positive

theorem unpack_parts (number : unpack Format.binary64 b ≠ .notANumber) :
    Sign.ofBitVec (unpackSign b) = signOf (unpack Format.binary64 b) ∧
      ((unpackExponent b).toNat, (unpackMantissa b).toNat) =
        partsOf (unpack Format.binary64 b) := by
  have mantissa_lt : (unpackMantissa b).toNat < 2 ^ 52 := (unpackMantissa b).isLt
  have bias : ((Format.binary64.exponentBias : Nat) : Int) = 1023 := rfl
  unfold unpack at number ⊢
  by_cases largest : unpackExponent b = -1#_
  · by_cases none : unpackMantissa b = 0#_
    · simp only [largest, none, if_true]
      exact ⟨rfl, rfl⟩
    · simp [largest, none] at number
  · by_cases smallest : unpackExponent b = 0#_
    · by_cases none : unpackMantissa b = 0#_
      · simp only [smallest, none]
        exact ⟨rfl, rfl⟩
      · simp only [smallest, none, if_false, if_true]
        exact ⟨rfl, (if_pos mantissa_lt).symm⟩
    · have whole : (1#1 ++ unpackMantissa b).toNat = 2 ^ 52 + (unpackMantissa b).toNat := by
        rw [BitVec.toNat_append, ← Nat.shiftLeft_add_eq_or_of_lt (unpackMantissa b).isLt]
        rfl
      have exponent : ((unpackExponent b).toNat - (1023 + 52 : Int) + 1075).toNat =
          (unpackExponent b).toNat := by omega
      have not_lt : ¬2 ^ 52 + (unpackMantissa b).toNat < 2 ^ 52 := by omega
      simp only [largest, smallest, if_false]
      refine ⟨rfl, ?_⟩
      simp only [partsOf, whole, bias, if_neg not_lt]
      exact congrArg₂ Prod.mk exponent.symm (by omega)

theorem unpack_injective (number : unpack Format.binary64 b ≠ .notANumber)
    (same : unpack Format.binary64 b = unpack Format.binary64 b') : b = b' := by
  obtain ⟨sign, parts⟩ := unpack_parts number
  obtain ⟨sign', parts'⟩ := unpack_parts (same ▸ number)
  rw [same, ← parts'] at parts
  rw [same, ← sign'] at sign
  obtain ⟨exponent, mantissa⟩ := Prod.mk.inj parts
  have signs (s s' : BitVec 1) (same : Sign.ofBitVec s = Sign.ofBitVec s') : s = s' := by
    obtain rfl | rfl := BitVec.eq_zero_or_eq_one s <;>
      obtain rfl | rfl := BitVec.eq_zero_or_eq_one s' <;> first | rfl | cases same
  exact eq_of_parts (signs _ _ sign) (BitVec.eq_of_toNat_eq exponent)
    (BitVec.eq_of_toNat_eq mantissa)

end Bits

/-- Numbers that compare as equal are both zeros, or made up of the same parts. -/
theorem eq_of_compare {u u' : UnpackedFloat} (equal : u.compare u' = some .eq) :
    u = u' ∧ u ≠ .notANumber ∨ (∃ s, u = .zero s) ∧ ∃ s, u' = .zero s := by
  cases u with
  | zero s =>
    cases u' with
    | zero s' => exact .inr ⟨⟨s, rfl⟩, s', rfl⟩
    | infinity s' => cases s' <;> cases equal
    | finite s' => cases s' <;> cases equal
    | notANumber => cases equal
  | notANumber => cases equal
  | infinity s =>
    cases u' with
    | infinity s' => cases s <;> cases s' <;> first | exact .inl ⟨rfl, by simp⟩ | cases equal
    | _ => cases s <;> cases equal
  | finite s m e pos =>
    cases u' with
    | finite s' m' e' pos' =>
      -- Numbers of different signs are not equal; those of one sign are compared part by part.
      have parts : s = s' ∧ e = e' ∧ m = m' := by
        cases s <;> cases s' <;> simp_all [UnpackedFloat.compare]
      obtain ⟨rfl, rfl, rfl⟩ := parts
      exact .inl ⟨rfl, by simp⟩
    | infinity s' => cases s' <;> cases s <;> cases equal
    | _ => cases s <;> cases equal

/-- A float without the sign of a zero. -/
def plus (x : Float) : Float := if x == 0 then 0 else x

theorem beq_zero_of_unpack {x : Float} {s : Sign} (zero : x.toModel.unpack = .zero s) :
    (x == 0) = true := by
  have positive : (0 : Float).toModel.unpack = .zero .positive := rfl
  change x.toModel.unpack.beq (0 : Float).toModel.unpack = true
  rw [zero, positive]
  rfl

theorem float_eq_of_beq {x y : Float} (equal : (x == y) = true) :
    x = y ∨ (x == 0) = true ∧ (y == 0) = true := by
  have compared : x.toModel.unpack.compare y.toModel.unpack = some .eq := by
    change (x.toModel.unpack.compare y.toModel.unpack == some .eq) = true at equal
    exact eq_of_beq equal
  obtain ⟨same, number⟩ | ⟨⟨s, zero⟩, s', zero'⟩ := eq_of_compare compared
  · left
    have bits := unpack_injective number same
    obtain ⟨⟨⟨bits_x⟩, valid⟩⟩ := x
    obtain ⟨⟨⟨bits_y⟩, valid'⟩⟩ := y
    cases bits
    rfl
  · exact .inr ⟨beq_zero_of_unpack zero, beq_zero_of_unpack zero'⟩

theorem plus_eq_of_beq {x y : Float} (equal : (x == y) = true) : plus x = plus y := by
  obtain rfl | ⟨zero, zero'⟩ := float_eq_of_beq equal
  · rfl
  · rw [plus, plus, if_pos zero, if_pos zero']

mutual
/-- A value without the signs of its zeros, and without marks. -/
def unsigned : Value → Value
  | .float x => .float (plus x)
  | .list items => .list (unsignedItems items)
  | .struct _ fields => .struct none (unsignedFields fields)
  | other => other

def unsignedItems : List Value → List Value
  | [] => []
  | item :: rest => unsigned item :: unsignedItems rest

def unsignedFields : List (String × Value) → List (String × Value)
  | [] => []
  | (name, item) :: rest => (name, unsigned item) :: unsignedFields rest
end

theorem unsigned_list (items : List Value) :
    (list items).unsigned = .list (items.map unsigned) := by
  have same : unsignedItems items = items.map unsigned := by
    induction items with
    | nil => rfl
    | cons item rest ih => rw [unsignedItems, ih, List.map_cons]
  rw [unsigned, same]

theorem unsigned_struct (mark : Option Nat) (fields : Fields Value) :
    (struct mark fields).unsigned = .struct none (onFields unsigned fields) := by
  have same : unsignedFields fields = onFields unsigned fields := by
    induction fields with
    | nil => rfl
    | cons field rest ih =>
      rw [unsignedFields, ih]
      rfl
  rw [unsigned, same]

/-- Equal values differ at most in the signs of zeros and in marks, where a mark stands for one
map. -/
theorem unsigned_of_beq {maps : Nat → Fields Value} {v w : Value} (formed : v.Formed maps)
    (formed' : w.Formed maps) (equal : (v == w) = true) : v.unsigned = w.unsigned := by
  change beq v w = true at equal
  induction formed generalizing w with
  | null | bool | int | string =>
    cases w <;> simp [beq] at equal
    simp [unsigned, equal]
  | float x =>
    cases w with
    | float y => rw [unsigned, unsigned, plus_eq_of_beq equal]
    | _ => cases equal
  | list _ ih =>
    cases formed' with
    | list formed' =>
      rw [beq] at equal
      rw [unsigned_list, unsigned_list]
      refine congrArg Value.list (map_eq_of_beqList ?_ equal)
      intro v mem w mem' same
      exact ih v mem (formed' w mem') same
    | _ => cases equal
  | struct _ marked _ ih =>
    cases formed' with
    | struct _ marked' formed' =>
      rw [beq, Bool.or_eq_true, Bool.and_eq_true, Option.isSome_iff_exists] at equal
      rw [unsigned_struct, unsigned_struct]
      obtain ⟨⟨n, here⟩, one⟩ | equal := equal
      · -- Both are the map of that mark.
        rw [beq_iff_eq] at one
        rw [← marked n here, ← marked' n (one ▸ here)]
      · refine congrArg (Value.struct none) (onFields_eq_of_beqFields ?_ equal)
        intro field mem field' mem' same
        exact ih field mem (formed' field' mem') same
    | _ => cases equal

end ModuleSystem.Value
