import Mathlib
import ModuleSystem.Form.Eval

/-! Integers are added from left to right, and each sum on the way has to be one of a word. What
comes out is exact. A sum that goes up and down by turns never leaves the word before its end, so a
total that is a word is reached in some order; it is reached in all of them if it can be reached
with all gains first and with all losses first. -/

namespace ModuleSystem.Form

/-- A signed word holds the number. -/
def Fits (n : Int) : Prop := Int64.minValue.toInt ≤ n ∧ n ≤ Int64.maxValue.toInt

instance : DecidablePred Fits := fun _ => inferInstanceAs (Decidable (_ ∧ _))

theorem fits_toInt (n : Int64) : Fits n.toInt := ⟨n.minValue_le_toInt, n.toInt_le⟩

theorem fits_zero : Fits 0 := by decide

theorem toInt_ofInt_of_fits {n : Int} (h : Fits n) : (Int64.ofInt n).toInt = n :=
  Int64.toInt_ofInt_of_le h.1 (Int.lt_add_one_of_le h.2)

def total (ns : List Int64) : Int := (ns.map Int64.toInt).sum

@[simp] theorem total_nil : total [] = 0 := rfl

@[simp] theorem total_cons (n : Int64) (ns : List Int64) : total (n :: ns) = n.toInt + total ns := by
  rw [total, List.map_cons, List.sum_cons, total]

theorem total_perm {ms ns : List Int64} (h : ms.Perm ns) : total ms = total ns :=
  (h.map Int64.toInt).sum_eq

theorem total_nonneg {ns : List Int64} (h : ∀ n ∈ ns, 0 ≤ n.toInt) : 0 ≤ total ns :=
  List.sum_nonneg (List.forall_mem_map.mpr h)

theorem total_nonpos {ns : List Int64} (h : ∀ n ∈ ns, n.toInt ≤ 0) : total ns ≤ 0 :=
  (List.sum_le_card_nsmul _ 0 (List.forall_mem_map.mpr h)).trans_eq (smul_zero _)

/-- The sum of the positive numbers. -/
def gains (ns : List Int64) : Int := total (ns.filter (0 < ·))

/-- The sum of the negative numbers. -/
def losses (ns : List Int64) : Int := total (ns.filter (· < 0))

theorem gains_perm {ms ns : List Int64} (h : ms.Perm ns) : gains ms = gains ns :=
  total_perm (h.filter _)

theorem losses_perm {ms ns : List Int64} (h : ms.Perm ns) : losses ms = losses ns :=
  total_perm (h.filter _)

theorem total_filter_cons (p : Int64 → Bool) (n : Int64) (ns : List Int64) :
    total ((n :: ns).filter p) = (if p n then n.toInt else 0) + total (ns.filter p) := by
  by_cases kept : p n <;> simp [kept]

/-- The total of a part lies between the losses and the gains of the whole. -/
theorem total_between {part ns : List Int64} (h : part.Sublist ns) :
    losses ns ≤ total part ∧ total part ≤ gains ns := by
  induction h with
  | slnil => exact ⟨Int.le_refl _, Int.le_refl _⟩
  | cons n _ ih =>
    simp only [losses, gains, total_filter_cons, decide_eq_true_eq, Int64.lt_iff_toInt_lt,
      Int64.toInt_zero] at ih ⊢
    split <;> split <;> omega
  | cons_cons n _ ih =>
    simp only [losses, gains, total_filter_cons, total_cons, decide_eq_true_eq,
      Int64.lt_iff_toInt_lt, Int64.toInt_zero] at ih ⊢
    split <;> split <;> omega

/-- No sum on the way leaves the word, not the first one, which is there before any number is added,
and not the last one. -/
def Contained (start : Int) (ns : List Int64) : Prop :=
  ∀ first, first <+: ns → Fits (start + total first)

theorem contained_nil {start : Int} : Contained start [] ↔ Fits start := by
  simp [Contained]

theorem Contained.fits_start {start : Int} {ns : List Int64} (h : Contained start ns) :
    Fits start := by
  simpa using h [] List.nil_prefix

theorem contained_cons {start : Int} {n : Int64} {ns : List Int64} :
    Contained start (n :: ns) ↔ Fits start ∧ Contained (start + n.toInt) ns := by
  constructor
  · intro h
    refine ⟨h.fits_start, fun first initial => ?_⟩
    have later := h (n :: first) ((List.prefix_cons_inj n).mpr initial)
    rwa [total_cons, ← Int.add_assoc] at later
  · rintro ⟨here, onward⟩ first initial
    obtain rfl | ⟨more, rfl, short⟩ := List.prefix_cons_iff.mp initial
    · simpa using here
    · rw [total_cons, ← Int.add_assoc]
      exact onward more short

theorem Contained.fits_total {ns : List Int64} (h : Contained 0 ns) : Fits (total ns) := by
  simpa using h ns (List.prefix_refl ns)

theorem addExact_eq (a b : Int64) : addExact a b =
    if Fits (a.toInt + b.toInt) then some (.ofInt (a.toInt + b.toInt)) else none := rfl

theorem add_of_fits {a n : Int64} (h : Fits (a.toInt + n.toInt)) :
    ∃ b : Int64, Sum.add (.exact a) (.int n) = .ok (.exact b) ∧ b.toInt = a.toInt + n.toInt := by
  refine ⟨.ofInt (a.toInt + n.toInt), ?_, toInt_ofInt_of_fits h⟩
  simp only [Sum.add, addExact_eq, if_pos h]

theorem add_of_not_fits {a n : Int64} (h : ¬Fits (a.toInt + n.toInt)) :
    Sum.add (.exact a) (.int n) = .error .overflow := by
  simp only [Sum.add, addExact_eq, if_neg h]

theorem foldlM_of_contained {ns : List Int64} {a : Int64} (h : Contained a.toInt ns) :
    ∃ c : Int64, (ns.map Value.int).foldlM Sum.add (.exact a) = .ok (.exact c) ∧
      c.toInt = a.toInt + total ns := by
  induction ns generalizing a with
  | nil => exact ⟨a, rfl, (Int.add_zero _).symm⟩
  | cons n ns ih =>
    obtain ⟨_, onward⟩ := contained_cons.mp h
    obtain ⟨b, first, exact⟩ := add_of_fits onward.fits_start
    rw [← exact] at onward
    obtain ⟨c, run, reached⟩ := ih onward
    refine ⟨c, ?_, ?_⟩
    · rw [List.map_cons, List.foldlM_cons, first]
      exact run
    · rw [reached, exact, total_cons, Int.add_assoc]

theorem foldlM_of_not_contained {ns : List Int64} {a : Int64} (h : ¬Contained a.toInt ns) :
    (ns.map Value.int).foldlM Sum.add (.exact a) = .error .overflow := by
  induction ns generalizing a with
  | nil => exact absurd (contained_nil.mpr (fits_toInt a)) h
  | cons n ns ih =>
    rw [List.map_cons, List.foldlM_cons]
    by_cases fits : Fits (a.toInt + n.toInt)
    · obtain ⟨b, first, exact⟩ := add_of_fits fits
      have out : ¬Contained b.toInt ns := by
        rw [exact]
        exact fun onward => h (contained_cons.mpr ⟨fits_toInt a, onward⟩)
      rw [first]
      exact ih out
    · rw [add_of_not_fits fits]
      rfl

/-- Integers are no strings, so they are always added and never joined. -/
theorem addAll_ints (ns : List Int64) : addAll (ns.map Value.int) = do
    let sum ← (ns.map Value.int).foldlM Sum.add (.exact 0)
    return sum.value := by
  cases ns <;> rfl

/-- From above zero a word is left at its upper end only. -/
theorem up_of_not_fits {start : Int} {n : Int64} (up : 0 ≤ start) (here : Fits start)
    (out : ¬Fits (start + n.toInt)) : 0 ≤ n.toInt ∧ Int64.maxValue.toInt < start + n.toInt := by
  have own := fits_toInt n
  simp only [Fits] at own here out
  omega

/-- From below zero a word is left at its lower end only. -/
theorem down_of_not_fits {start : Int} {n : Int64} (down : start < 0) (here : Fits start)
    (out : ¬Fits (start + n.toInt)) : n.toInt ≤ 0 ∧ start + n.toInt < Int64.minValue.toInt := by
  have own := fits_toInt n
  simp only [Fits] at own here out
  omega

/-- If every number led out of the word, they would all lead out at the same end, and so would their
total. -/
theorem exists_next {start : Int} {ns : List Int64} (here : Fits start)
    (there : Fits (start + total ns)) (left : ns ≠ []) : ∃ n ∈ ns, Fits (start + n.toInt) := by
  obtain ⟨n, rest, rfl⟩ := List.exists_cons_of_ne_nil left
  by_contra out
  simp only [not_exists, not_and, List.forall_mem_cons] at out
  obtain ⟨first, later⟩ := out
  obtain ⟨low, high⟩ := there
  rw [total_cons] at low high
  rcases lt_or_ge start 0 with down | up
  · have less := total_nonpos fun m mem => (down_of_not_fits down here (later m mem)).1
    have := (down_of_not_fits down here first).2
    omega
  · have more := total_nonneg fun m mem => (up_of_not_fits up here (later m mem)).1
    have := (up_of_not_fits up here first).2
    omega

/-- Numbers with a total in the word have an order in which no sum on the way leaves it. -/
theorem exists_contained {start : Int} {ns : List Int64} (here : Fits start)
    (there : Fits (start + total ns)) : ∃ ms, ms.Perm ns ∧ Contained start ms := by
  -- The number to go on with can stand anywhere, so the induction is on how many there are.
  induction length : ns.length generalizing start ns with
  | zero =>
    rw [List.length_eq_zero_iff] at length
    exact ⟨[], length ▸ .refl _, contained_nil.mpr here⟩
  | succ k ih =>
    obtain ⟨n, mem, next⟩ := exists_next here there (by rintro rfl; cases length)
    have split := List.perm_cons_erase mem
    rw [total_perm split, total_cons, ← Int.add_assoc] at there
    obtain ⟨ms, perm, onward⟩ := ih next there (by rw [List.length_erase_of_mem mem, length]; rfl)
    exact ⟨n :: ms, (perm.cons n).trans split.symm, contained_cons.mpr ⟨here, onward⟩⟩

theorem contained_all_iff {ns : List Int64} :
    (∀ ms, ms.Perm ns → Contained 0 ms) ↔ Fits (gains ns) ∧ Fits (losses ns) := by
  constructor
  · intro all
    -- Whatever numbers are chosen, there is an order that begins with them.
    have first (p : Int64 → Bool) : Fits (total (ns.filter p)) := by
      simpa using all _ (List.filter_append_perm p ns) _ (List.prefix_append _ _)
    exact ⟨first _, first _⟩
  · rintro ⟨up, down⟩ ms perm first initial
    have between := total_between initial.sublist
    rw [gains_perm perm, losses_perm perm] at between
    simp only [Fits] at up down ⊢
    omega

/-- The operands come to these integers. -/
def Operands (bindings : Fields Value) (items : List Expr) (ns : List Int64) : Prop :=
  List.Forall₂ (fun e n => eval bindings e = .ok (.int n)) items ns

/-- The sum of the operands is the integer `n`, and a word holds it. -/
def Sums (bindings : Fields Value) (items : List Expr) (n : Int) : Prop :=
  ∃ w : Int64, eval bindings (.add items) = .ok (.int w) ∧ w.toInt = n

def Overflows (bindings : Fields Value) (items : List Expr) : Prop :=
  eval bindings (.add items) = .error .overflow

section

variable {bindings : Fields Value} {items order : List Expr} {ms ns : List Int64} {n : Int}

theorem Operands.evalAll (h : Operands bindings items ns) :
    evalAll bindings items = .ok (ns.map Value.int) := by
  induction h with
  | nil => rfl
  | cons first _ ih =>
    rw [Form.evalAll, first, ih]
    rfl

theorem Operands.eval_add (h : Operands bindings items ns) :
    eval bindings (.add items) = addAll (ns.map Value.int) := by
  rw [eval, h.evalAll]
  rfl

/-- Operands in another order come to their integers in another order. -/
theorem Operands.reordered (h : Operands bindings items ns) (perm : order.Perm items) :
    ∃ ms, ms.Perm ns ∧ Operands bindings order ms := by
  obtain ⟨ms, operands, perm'⟩ := List.perm_comp_forall₂ perm h
  exact ⟨ms, perm', operands⟩

/-- Every order of the integers comes from one of the operands. -/
theorem Operands.of_reordered (h : Operands bindings items ns) (perm : ms.Perm ns) :
    ∃ order, order.Perm items ∧ Operands bindings order ms := by
  obtain ⟨order, operands, perm'⟩ := List.perm_comp_forall₂ perm h.flip
  exact ⟨order, perm', operands.flip⟩

theorem Operands.sums (h : Operands bindings items ns) (within : Contained 0 ns) :
    Sums bindings items (total ns) := by
  obtain ⟨c, run, exact⟩ := foldlM_of_contained (a := 0) within
  refine ⟨c, ?_, exact.trans (Int.zero_add _)⟩
  rw [h.eval_add, addAll_ints, run]
  rfl

theorem Operands.overflows (h : Operands bindings items ns) (out : ¬Contained 0 ns) :
    Overflows bindings items := by
  rw [Overflows, h.eval_add, addAll_ints, foldlM_of_not_contained (a := 0) out]
  rfl

theorem Sums.not_overflows (h : Sums bindings items n) : ¬Overflows bindings items := by
  obtain ⟨w, sum, _⟩ := h
  rw [Overflows, sum]
  exact nofun

theorem Sums.eval_eq (h : Sums bindings items n) (h' : Sums bindings order n) :
    eval bindings (.add items) = eval bindings (.add order) := by
  obtain ⟨w, sum, exact⟩ := h
  obtain ⟨w', sum', exact'⟩ := h'
  rw [sum, sum', Int64.toInt_inj.mp (exact.trans exact'.symm)]

theorem Operands.sums_or_overflows (h : Operands bindings items ns) (perm : order.Perm items) :
    Sums bindings order (total ns) ∨ Overflows bindings order := by
  obtain ⟨ms, perm', operands⟩ := h.reordered perm
  by_cases within : Contained 0 ms
  · exact .inl (total_perm perm' ▸ operands.sums within)
  · exact .inr (operands.overflows within)

theorem Operands.overflows_of_not_fits (h : Operands bindings items ns) (large : ¬Fits (total ns))
    (perm : order.Perm items) : Overflows bindings order := by
  obtain ⟨ms, perm', operands⟩ := h.reordered perm
  refine operands.overflows fun within => large ?_
  exact total_perm perm' ▸ within.fits_total

theorem Operands.exists_sums (h : Operands bindings items ns) (small : Fits (total ns)) :
    ∃ order, order.Perm items ∧ Sums bindings order (total ns) := by
  obtain ⟨ms, perm, within⟩ := exists_contained fits_zero (by rwa [Int.zero_add])
  obtain ⟨order, perm', operands⟩ := h.of_reordered perm
  exact ⟨order, perm', total_perm perm ▸ operands.sums within⟩

/-- If the order makes no difference, each order gives what the best one gives. -/
theorem Operands.order_free_iff (h : Operands bindings items ns) :
    (∀ order, order.Perm items → eval bindings (.add order) = eval bindings (.add items)) ↔
      (Fits (total ns) → Fits (gains ns) ∧ Fits (losses ns)) := by
  constructor
  · intro same small
    refine contained_all_iff.mp fun ms perm => ?_
    obtain ⟨order, perm', operands⟩ := h.of_reordered perm
    obtain ⟨best, perm_best, sum⟩ := h.exists_sums small
    by_contra out
    refine sum.not_overflows ?_
    rw [Overflows, same best perm_best, ← same order perm']
    exact operands.overflows out
  · intro apart order perm
    by_cases small : Fits (total ns)
    · have within := contained_all_iff.mpr (apart small)
      obtain ⟨ms, perm', operands⟩ := h.reordered perm
      have sum : Sums bindings order (total ns) :=
        total_perm perm' ▸ operands.sums (within ms perm')
      exact sum.eval_eq (h.sums (within ns (.refl ns)))
    · have overflow := h.overflows_of_not_fits small perm
      exact overflow.trans (h.overflows_of_not_fits small (.refl items)).symm

/-- The sum of integer operands is exact if no sum on the way from the left leaves the word, else
it overflows. In any other order it is the same number or an overflow: always an overflow if the word
does not hold the total, and the total in at least one order if the word holds it. The order makes no
difference just if the word holds, with the total, the gains and the losses. -/
theorem exact_sums (operands : Operands bindings items ns) :
    (Contained 0 ns → Sums bindings items (total ns)) ∧
      (¬Contained 0 ns → Overflows bindings items) ∧
      (∀ order, order.Perm items →
        Sums bindings order (total ns) ∨ Overflows bindings order) ∧
      (¬Fits (total ns) → ∀ order, order.Perm items → Overflows bindings order) ∧
      (Fits (total ns) → ∃ order, order.Perm items ∧ Sums bindings order (total ns)) ∧
      ((∀ order, order.Perm items → eval bindings (.add order) = eval bindings (.add items)) ↔
        (Fits (total ns) → Fits (gains ns) ∧ Fits (losses ns))) :=
  ⟨operands.sums, operands.overflows, fun _ => operands.sums_or_overflows,
    fun large _ => operands.overflows_of_not_fits large, operands.exists_sums,
    operands.order_free_iff⟩

end

/-- The least integer, read from a binding, the largest and a nested sum: in this order the sum is
one, but with all gains first it overflows. -/
theorem exact_sums_mixed :
    let bindings : Fields Value := [("low", .int Int64.minValue)]
    let items : List Expr := [.ref "low", .literal (.int Int64.maxValue),
      .add [.literal (.int 1), .literal (.int 1)]]
    let ns : List Int64 := [Int64.minValue, Int64.maxValue, 2]
    Operands bindings items ns ∧ Contained 0 ns ∧ Sums bindings items 1 ∧
      ¬∀ order, order.Perm items → eval bindings (.add order) = eval bindings (.add items) := by
  intro bindings items ns
  have operands : Operands bindings items ns := .cons rfl (.cons rfl (.cons rfl .nil))
  have within : Contained 0 ns := by
    simp only [ns, contained_cons, contained_nil]
    decide
  obtain ⟨sums, -, -, -, -, same⟩ := exact_sums operands
  refine ⟨operands, within, sums within, fun all => ?_⟩
  exact absurd (same.mp all (by decide)).1 (by decide)

/-- The total is a word, and the sum overflows on the way to it; in another order it does not. -/
theorem overflow_on_the_way :
    let bindings : Fields Value := []
    let items : List Expr := [.literal (.int Int64.maxValue), .literal (.int 1), .literal (.int (-1))]
    let order : List Expr := [.literal (.int Int64.maxValue), .literal (.int (-1)), .literal (.int 1)]
    let ns : List Int64 := [Int64.maxValue, 1, -1]
    Operands bindings items ns ∧ Fits (total ns) ∧
      eval bindings (.add items) = .error .overflow ∧ order.Perm items ∧
      eval bindings (.add order) = .ok (.int Int64.maxValue) := by
  intro bindings items order ns
  refine ⟨.cons rfl (.cons rfl (.cons rfl .nil)), by decide, rfl, .cons _ (.swap _ _ _), rfl⟩

end ModuleSystem.Form
