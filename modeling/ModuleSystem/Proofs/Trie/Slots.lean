import Mathlib
import ModuleSystem.Trie.Node

/-! Two hashes whose thirteen slices agree are equal, so hashes that differ part above the last
level. A bitmap stands for the list of its occupied slots: `rank` is a place in that list, and
setting or clearing a bit puts a slot there or takes it out. -/

namespace ModuleSystem.Trie

theorem slot_lt (hash : UInt64) (depth : Nat) : slot hash depth < 32 :=
  Nat.mod_lt _ (by decide)

theorem slot_eq_div (hash : UInt64) (depth : Nat) :
    slot hash depth = hash.toNat / 32 ^ depth % 32 := by
  rw [slot, Nat.shiftRight_eq_div_pow, Nat.pow_mul]

theorem mod_pow_eq_of_slots {a b : UInt64} {n : Nat} (h : ∀ d < n, slot a d = slot b d) :
    a.toNat % 32 ^ n = b.toNat % 32 ^ n := by
  induction n with
  | zero => simp [Nat.mod_one]
  | succ n ih =>
    have last := h n (Nat.lt_succ_self n)
    rw [slot_eq_div, slot_eq_div] at last
    rw [Nat.mod_pow_succ, Nat.mod_pow_succ, ih fun d hd => h d (by omega), last]

/-- The slices of all levels make up the hash. -/
theorem eq_of_slots {a b : UInt64} (h : ∀ d < levels, slot a d = slot b d) : a = b := by
  have agree := mod_pow_eq_of_slots h
  have covered : UInt64.size ≤ 32 ^ levels := by decide
  have ha := a.toNat_lt_size
  have hb := b.toNat_lt_size
  rw [Nat.mod_eq_of_lt (by omega), Nat.mod_eq_of_lt (by omega)] at agree
  exact UInt64.toNat_inj.mp agree

def occupied (bitmap : BitVec 32) : List Nat := (List.range 32).filter (bitmap.getLsbD ·)

/-- The occupied slots before `s`. -/
def occupiedBelow (bitmap : BitVec 32) (s : Nat) : List Nat :=
  (List.range s).filter (bitmap.getLsbD ·)

/-- The occupied slots after `s`. -/
def occupiedAbove (bitmap : BitVec 32) (s : Nat) : List Nat :=
  (List.range' (s + 1) (31 - s)).filter (bitmap.getLsbD ·)

theorem length_occupiedBelow (bitmap : BitVec 32) (s : Nat) :
    (occupiedBelow bitmap s).length = rank bitmap s := by
  induction s with
  | zero => rfl
  | succ s ih =>
    rw [occupiedBelow, List.range_succ, List.filter_append, List.length_append, rank, ← ih]
    cases h : bitmap.getLsbD s <;> simp [occupiedBelow, h]

theorem range_split {s : Nat} (hs : s < 32) :
    List.range 32 = List.range s ++ s :: List.range' (s + 1) (31 - s) := by
  have upper : s :: List.range' (s + 1) (31 - s) = List.range' s (32 - s) := by
    rw [show 32 - s = (31 - s) + 1 by omega, List.range'_succ]
  rw [upper, List.range_eq_range', List.range_eq_range']
  have joined :
      List.range' 0 s ++ List.range' (0 + 1 * s) (32 - s) = List.range' 0 (s + (32 - s)) :=
    List.range'_append
  rw [show 0 + 1 * s = s by omega, show s + (32 - s) = 32 by omega] at joined
  exact joined.symm

theorem occupied_of_set {bitmap : BitVec 32} {s : Nat} (hs : s < 32) (h : bitmap.getLsbD s = true) :
    occupied bitmap = occupiedBelow bitmap s ++ s :: occupiedAbove bitmap s := by
  rw [occupied, range_split hs, List.filter_append, List.filter_cons_of_pos h]
  rfl

theorem occupied_of_clear {bitmap : BitVec 32} {s : Nat} (hs : s < 32)
    (h : bitmap.getLsbD s = false) :
    occupied bitmap = occupiedBelow bitmap s ++ occupiedAbove bitmap s := by
  rw [occupied, range_split hs, List.filter_append, List.filter_cons_of_neg (by simp [h])]
  rfl

theorem mem_occupiedBelow {bitmap : BitVec 32} {s t : Nat} (h : t ∈ occupiedBelow bitmap s) :
    t < s := by
  simpa using (List.mem_filter.mp h).1

theorem mem_occupiedAbove {bitmap : BitVec 32} {s t : Nat} (h : t ∈ occupiedAbove bitmap s) :
    s < t := by
  have := List.mem_range'_1.mp (List.mem_filter.mp h).1
  omega

/-- Bitmaps that agree off `s` have the same slots on both sides of it. -/
theorem occupied_sides {a b : BitVec 32} {s : Nat}
    (h : ∀ t < 32, t ≠ s → a.getLsbD t = b.getLsbD t) (hs : s < 32) :
    occupiedBelow a s = occupiedBelow b s ∧ occupiedAbove a s = occupiedAbove b s := by
  constructor
  · apply List.filter_congr
    intro t ht
    have := List.mem_range.mp ht
    exact h t (by omega) (by omega)
  · apply List.filter_congr
    intro t ht
    have := List.mem_range'_1.mp ht
    exact h t (by omega) (by omega)

theorem getLsbD_slotBit {s t : Nat} (hs : s < 32) : (slotBit s).getLsbD t = decide (s = t) := by
  simp [slotBit, BitVec.getLsbD_twoPow, hs]

theorem occupied_or_slotBit (bitmap : BitVec 32) {s : Nat} (hs : s < 32) :
    occupied (bitmap ||| slotBit s) =
      occupiedBelow bitmap s ++ s :: occupiedAbove bitmap s := by
  have now : (bitmap ||| slotBit s).getLsbD s = true := by simp [getLsbD_slotBit hs]
  obtain ⟨below, above⟩ := occupied_sides (a := bitmap ||| slotBit s) (b := bitmap)
    (fun t _ ht => by simp [getLsbD_slotBit hs, Ne.symm ht]) hs
  rw [occupied_of_set hs now, below, above]

theorem occupied_and_not_slotBit (bitmap : BitVec 32) {s : Nat} (hs : s < 32) :
    occupied (bitmap &&& ~~~slotBit s) = occupiedBelow bitmap s ++ occupiedAbove bitmap s := by
  have gone : (bitmap &&& ~~~slotBit s).getLsbD s = false := by simp [getLsbD_slotBit hs]
  obtain ⟨below, above⟩ := occupied_sides (a := bitmap &&& ~~~slotBit s) (b := bitmap)
    (fun t ht hne => by
      rw [BitVec.getLsbD_and, BitVec.getLsbD_not, getLsbD_slotBit hs]
      simp [ht, Ne.symm hne]) hs
  rw [occupied_of_clear hs gone, below, above]

theorem occupied_slotBit {s : Nat} (hs : s < 32) : occupied (slotBit s) = [s] := by
  have empty (l : List Nat) : l.filter ((0#32).getLsbD ·) = [] := by simp
  have := occupied_or_slotBit 0#32 hs
  rwa [BitVec.zero_or, occupiedBelow, occupiedAbove, empty, empty] at this

theorem occupied_pair {s t : Nat} (hst : s < t) (ht : t < 32) :
    occupied (slotBit s ||| slotBit t) = [s, t] := by
  have hs : s < 32 := by omega
  have one : (slotBit s).getLsbD t = false := by rw [getLsbD_slotBit hs]; simp; omega
  have alone := occupied_of_clear ht one
  rw [occupied_slotBit hs] at alone
  rw [occupied_or_slotBit _ ht]
  cases below : occupiedBelow (slotBit s) t with
  | nil =>
    rw [below, List.nil_append] at alone
    have := mem_occupiedAbove (alone ▸ List.mem_singleton_self s)
    omega
  | cons x rest =>
    rw [below, List.cons_append, List.cons.injEq] at alone
    obtain ⟨rfl, none⟩ := alone
    obtain ⟨rfl, nothing⟩ := List.append_eq_nil_iff.mp none.symm
    rw [nothing]
    rfl

end ModuleSystem.Trie
