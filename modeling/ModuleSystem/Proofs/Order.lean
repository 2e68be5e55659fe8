import ModuleSystem.Proofs.ModuleId.Segments

namespace ModuleSystem

namespace ModuleId

theorem lt_trans {a b c : ModuleId} (ab : a < b) (bc : b < c) : a < c := String.lt_trans ab bc

theorem not_lt_iff (a b : ModuleId) : ¬b < a ↔ a.text ≤ b.text := String.not_lt

/-- Of two different ids one comes first. -/
theorem lt_of_not_lt {a b : ModuleId} (h : ¬b < a) (ne : a ≠ b) : a < b := by
  rw [not_lt_iff] at h
  refine String.not_le.mp fun back => ne ?_
  exact eq_of_text (String.le_antisymm h back)

end ModuleId

@[simp] theorem mem_sortIds {id : ModuleId} {ids : List ModuleId} : id ∈ sortIds ids ↔ id ∈ ids :=
  List.mem_mergeSort

/-- Ids that are all different come out in strict order. -/
theorem sortIds_pairwise {ids : List ModuleId} (once : ids.Nodup) :
    (sortIds ids).Pairwise (· < ·) := by
  have sorted : (sortIds ids).Pairwise fun a b => !decide (b < a) := by
    refine List.pairwise_mergeSort (fun a b c ab bc => ?_) (fun a b => ?_) ids
    · simp only [Bool.not_eq_true', decide_eq_false_iff_not, ModuleId.not_lt_iff] at ab bc ⊢
      exact String.le_trans ab bc
    · simp only [Bool.or_eq_true, Bool.not_eq_true', decide_eq_false_iff_not, ModuleId.not_lt_iff]
      exact String.le_total a.text b.text
  have distinct : (sortIds ids).Pairwise (· ≠ ·) := (List.mergeSort_perm ids _).nodup_iff.mpr once
  refine (sorted.and distinct).imp fun {a b} h => ?_
  obtain ⟨le, ne⟩ := h
  exact ModuleId.lt_of_not_lt (by simpa using le) ne

theorem mem_insertId {ids : List ModuleId} {id new : ModuleId} :
    id ∈ insertId ids new ↔ id = new ∨ id ∈ ids := by
  induction ids with
  | nil => simp [insertId]
  | cons first rest ih =>
    rw [insertId]
    split
    · exact List.mem_cons
    · split
      · next same =>
        subst same
        simp
      · rw [List.mem_cons, ih, List.mem_cons]
        tauto

theorem mem_idSet {ids : List ModuleId} {id : ModuleId} : id ∈ idSet ids ↔ id ∈ ids := by
  have all : ∀ base : List ModuleId, id ∈ ids.foldl insertId base ↔ id ∈ base ∨ id ∈ ids := by
    induction ids with
    | nil => simp
    | cons first rest ih =>
      intro base
      rw [List.foldl_cons, ih, mem_insertId, List.mem_cons]
      tauto
  simp [idSet, all]

theorem insertId_pairwise {ids : List ModuleId} {id : ModuleId} (sorted : ids.Pairwise (· < ·)) :
    (insertId ids id).Pairwise (· < ·) := by
  induction ids with
  | nil => simp [insertId]
  | cons first rest ih =>
    obtain ⟨later, ordered⟩ := List.pairwise_cons.mp sorted
    rw [insertId]
    split
    · next before =>
      apply List.pairwise_cons.mpr
      refine ⟨List.forall_mem_cons.mpr ⟨before, ?_⟩, sorted⟩
      intro other mem
      exact ModuleId.lt_trans before (later other mem)
    · next not_before =>
      split
      · exact sorted
      · next differs =>
        apply List.pairwise_cons.mpr
        refine ⟨?_, ih ordered⟩
        intro other mem
        obtain rfl | mem := mem_insertId.mp mem
        · exact ModuleId.lt_of_not_lt not_before differs
        · exact later other mem

theorem idSet_pairwise (ids : List ModuleId) : (idSet ids).Pairwise (· < ·) := by
  have all : ∀ base : List ModuleId, base.Pairwise (· < ·) →
      (ids.foldl insertId base).Pairwise (· < ·) := by
    induction ids with
    | nil => exact fun _ sorted => sorted
    | cons first rest ih => exact fun base sorted => ih _ (insertId_pairwise sorted)
  exact all [] .nil

end ModuleSystem
