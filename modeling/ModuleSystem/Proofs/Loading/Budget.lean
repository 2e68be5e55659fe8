import ModuleSystem.Proofs.Loading.Contents
import ModuleSystem.Proofs.Loading.Crew

/-! Each step of a thread costs something: what is left for it to do gets smaller, or a module is
claimed, and only the modules that some source mentions can be. The price of each control state and
the price of a claim are chosen such that every step pays, and the bound that threads run with is
never reached. -/

namespace ModuleSystem

theorem Body.size_eq (b : Body) : b.size = 1 + b.pending.length + Form.Program.size b.rest := by
  unfold size Form.Program.size
  induction b.rest with
  | nil => rfl
  | cons form rest ih =>
    rw [List.foldr_cons, ih, List.map_cons, List.sum_cons]
    omega

theorem Body.wants_length_lt (b : Body) : b.wants.length < b.size := by
  have := Form.Program.required_length_le b.rest
  rw [size_eq, wants, List.length_append]
  omega

/-- What the bodies of a stack have left to do. -/
def stackSize (stack : List Body) : Nat := (stack.map Body.size).sum

@[simp] theorem stackSize_nil : stackSize [] = 0 := rfl

@[simp] theorem stackSize_cons (b : Body) (below : List Body) :
    stackSize (b :: below) = b.size + stackSize below := rfl

theorem Thread.size_eq (t : Thread) : t.size = stackSize t.stack := by
  unfold size stackSize
  induction t.stack with
  | nil => rfl
  | cons b below ih => rw [List.foldr_cons, ih, List.map_cons, List.sum_cons]

/-- The steps that a control state may lead to until the innermost body has gone on; a module that
is to be built may still get a body of its own. -/
def Control.price (building : Nat) : Control → Nat
  | .ended _ => 0
  | .unwind => 1
  | .answer _ => 2
  | .waiting _ => 3
  | .park _ => 4
  | .look _ => 5
  | .request _ => 6
  | .run => 7
  | .enter => 8
  | .build _ => building

/-- The steps that building a module of at most `bytes` bytes may take. -/
def buildPrice (bytes : Nat) : Nat := 6 * (1 + bytes) + 9

/-- The modules of a list that nobody has claimed. -/
def Registry.unclaimed (r : Registry) (ids : List ModuleId) : Nat :=
  ids.countP fun id => (r.cell? id).isNone

/-- More steps than a thread has left. -/
def Thread.effort (bytes : Nat) (ids : List ModuleId) (r : Registry) (t : Thread) : Nat :=
  t.control.price (buildPrice bytes) + 6 * stackSize t.stack +
    (buildPrice bytes - 5) * r.unclaimed ids

/-- Nothing but the modules of a list is asked for, now or later. -/
structure Thread.Within (ids : List ModuleId) (t : Thread) : Prop where
  wants : ∀ b ∈ t.stack, b.wants ⊆ ids
  asked : ∀ id, t.control = .request id → id ∈ ids

theorem Transition.within {s : Surroundings} {me : ThreadId} {r r' : Registry} {t t' : Thread}
    {ids : List ModuleId} (h : Transition s me r t r' t') (mentions : s.mentions ⊆ ids)
    (within : t.Within ids) : t'.Within ids := by
  obtain ⟨wants, asked⟩ := within
  cases h with
  | begin ready =>
    refine ⟨fun b mem => ?_, by simp⟩
    obtain rfl | mem := List.mem_cons.mp mem
    · exact List.Subset.trans (Surroundings.required_subset_of_prepare ready) mentions
    · exact wants b mem
  | perform noPending next done =>
    refine ⟨fun b mem => ?_, by simp⟩
    obtain rfl | mem := List.mem_cons.mp mem
    · rw [Body.wants_perform noPending next done]
      exact wants _ List.mem_cons_self
    · exact wants b (List.mem_cons_of_mem _ mem)
  | @receive b below m =>
    refine ⟨fun x mem => ?_, by simp⟩
    obtain rfl | mem := List.mem_cons.mp mem
    · exact List.Subset.trans (b.wants_receive m) (wants b List.mem_cons_self)
    · exact wants x (List.mem_cons_of_mem _ mem)
  | @ask b below id more next =>
    refine ⟨wants, ?_⟩
    rintro _ ⟨⟩
    exact wants b List.mem_cons_self (by simp [Body.wants, next])
  | leaveModule | abandonModule =>
    exact ⟨fun x mem => wants x (List.mem_cons_of_mem _ mem), by simp⟩
  | leaveScript | abandonScript => exact ⟨by simp, by simp⟩
  | _ => exact ⟨wants, by simp⟩

namespace Registry

theorem unclaimed_congr {r r' : Registry} (h : r'.claimed = r.claimed) (ids : List ModuleId) :
    r'.unclaimed ids = r.unclaimed ids := by
  unfold unclaimed
  congr 1
  funext id
  rw [Bool.eq_iff_iff, Option.isNone_iff_eq_none, Option.isNone_iff_eq_none, cell?_eq_none_iff,
    cell?_eq_none_iff, h]

theorem unclaimed_claim {r : Registry} {id : ModuleId} (new : r.cell? id = none) (me : ThreadId)
    {ids : List ModuleId} (mem : id ∈ ids) : (r.claim id me).unclaimed ids < r.unclaimed ids := by
  have fewer : ∀ ids, (r.claim id me).unclaimed ids ≤ r.unclaimed ids := by
    intro ids
    refine List.countP_mono_left fun x _ none => ?_
    rw [cell?_claim new] at none
    split at none
    · cases none
    · exact none
  obtain ⟨before, after, rfl⟩ := List.append_of_mem mem
  have left := fewer before
  have right := fewer after
  have claimed : ((r.claim id me).cell? id).isNone = false := by simp [cell?_claim new]
  unfold unclaimed at left right ⊢
  rw [List.countP_append, List.countP_append, List.countP_cons_of_neg (by simp [claimed]),
    List.countP_cons_of_pos (by simp [new])]
  omega

theorem unclaimed_le (r : Registry) (ids : List ModuleId) : r.unclaimed ids ≤ ids.length :=
  List.countP_le_length

end Registry

theorem Body.size_perform {b b' : Body} {form : Form.Located} {rest : Form.Program}
    (noPending : b.pending = []) (next : b.rest = form :: rest)
    (h : { b with rest }.perform form = .ok b') : b'.size < b.size := by
  obtain ⟨_, _, left, pending⟩ := perform_spec noPending h
  simp only [size_eq, left, pending, next, noPending, Form.Program.size, List.map_cons,
    List.sum_cons, formSize_eq, List.length_nil]
  omega

theorem Body.size_receive {b : Body} {id : ModuleId} {more : List ModuleId}
    (pending : b.pending = id :: more) (m : ModuleInstance) : (b.receive m).size < b.size := by
  simp only [size_eq, receive, pending, List.drop_succ_cons, List.drop_zero, List.length_cons]
  omega

/-- Every step pays. -/
theorem Transition.effort_lt {s : Surroundings} {me : ThreadId} {r r' : Registry} {t t' : Thread}
    {goal : Option ModuleId} {ids : List ModuleId} (h : Transition s me r t r' t')
    (valid : t.Valid goal) (within : t.Within ids) :
    t'.effort s.byteCount ids r' < t.effort s.byteCount ids r := by
  obtain ⟨nested, fits⟩ := valid
  unfold Thread.effort
  cases h with
  | own | known | seen | busy | closed | snap | enter | ask | tell | unwound =>
    simp only [Control.price]
    omega
  | @wait stack id =>
    have same : (r.wait me id).unclaimed ids = r.unclaimed ids := rfl
    simp only [Control.price, same]
    omega
  | wake =>
    have same : (r.wake me).unclaimed ids = r.unclaimed ids := rfl
    simp only [Control.price, same]
    omega
  | @claim stack id foreign new =>
    have fewer := Registry.unclaimed_claim new me (within.asked id rfl)
    have price := Nat.mul_le_mul_left (buildPrice s.byteCount - 5) fewer
    simp only [Nat.mul_succ, Control.price, buildPrice] at price ⊢
    omega
  | @settle stack id o ready =>
    have same : ((s.noted r id).publish id o).claimed = r.claimed := by
      rw [Registry.claimed_publish, Registry.claimed_congr (s.noted_quiet r id).1]
    simp only [Control.price, Registry.unclaimed_congr same, buildPrice]
    omega
  | @begin stack id source p ready =>
    have small := Surroundings.size_le_of_prepare ready
    have same : (r.reported (.module id) source p).unclaimed ids = r.unclaimed ids := rfl
    simp only [Control.price, stackSize_cons, Body.size_eq, Body.start, same, buildPrice,
      List.length_nil]
    omega
  | @perform b b' below form rest noPending next done =>
    have smaller := Body.size_perform noPending next done
    have same : (r.record b.unit.text form.span).unclaimed ids = r.unclaimed ids := rfl
    simp only [Control.price, stackSize_cons, same]
    omega
  | @receive b below m =>
    obtain ⟨id, more, pending⟩ := fits
    have smaller := Body.size_receive pending m
    simp only [Control.price, stackSize_cons]
    omega
  | @leaveModule b below control r₁ result id unit departs =>
    have some := b.size_eq
    have same : (r₁.publish id (b.outcome id result)).claimed = r.claimed := by
      rw [Registry.claimed_publish, Registry.claimed_congr departs.quiet.1]
    have price : 2 ≤ control.price (buildPrice s.byteCount) := by
      cases departs <;> simp [Control.price]
    simp only [Control.price, stackSize_cons, Registry.unclaimed_congr same] at price ⊢
    omega
  | @leaveScript b below control r₁ result name unit departs =>
    have some := b.size_eq
    have same := Registry.unclaimed_congr (Registry.claimed_congr departs.quiet.1) ids
    simp only [Control.price, stackSize_cons, stackSize_nil, same]
    omega
  | @abandonModule b below id unit =>
    have some := b.size_eq
    have same : (r.publish id (.error (abandoned id))).claimed = r.claimed :=
      Registry.claimed_publish ..
    simp only [Control.price, stackSize_cons, Registry.unclaimed_congr same]
    omega
  | abandonScript =>
    simp only [Control.price, stackSize_cons, stackSize_nil]
    omega

/-- Whatever every step keeps holds at the end of a run. -/
theorem runSteps_keeps {s : Surroundings} {me : ThreadId} {P : Registry → Thread → Prop}
    (keeps : ∀ {r r' t t'}, Transition s me r t r' t' → P r t → P r' t') (fuel : Nat) {r : Registry}
    {t : Thread} (start : P r t) :
    P (runSteps s me fuel r t).1 (runSteps s me fuel r t).2 := by
  induction fuel generalizing r t with
  | zero => exact start
  | succ fuel ih =>
    rw [runSteps]
    split
    · next r' t' moved => exact ih (keeps (transition_of_step moved) start)
    · exact start

theorem runSteps_stops {s : Surroundings} {me : ThreadId} {goal : Option ModuleId}
    {ids : List ModuleId} (mentions : s.mentions ⊆ ids) (fuel : Nat) {r : Registry} {t : Thread}
    (valid : t.Valid goal) (within : t.Within ids)
    (enough : t.effort s.byteCount ids r ≤ fuel) :
    step s me (runSteps s me fuel r t).1 (runSteps s me fuel r t).2 = none := by
  induction fuel generalizing r t with
  | zero =>
    rw [runSteps]
    cases moved : step s me r t with
    | none => rfl
    | some next =>
      have smaller := (transition_of_step moved).effort_lt valid within
      omega
  | succ fuel ih =>
    rw [runSteps]
    split
    · next r' t' moved =>
      have moved := transition_of_step moved
      have smaller := moved.effort_lt valid within
      exact ih (moved.valid valid) (moved.within mentions within) (by omega)
    · assumption

/-- The fuel of a thread that begins to load or to run a script is enough for it to come to rest. -/
theorem effort_le_stepBound {s : Surroundings} {ids : List ModuleId} {r : Registry} {t : Thread}
    (cheap : ∀ n, t.control.price n ≤ 8) (length : ids.length ≤ s.byteCount + t.size + 1)
    {size : Nat} (bound : t.size ≤ size) : t.effort s.byteCount ids r ≤ stepBound s size := by
  have unclaimed := Nat.le_trans (r.unclaimed_le ids) length
  have price := cheap (buildPrice s.byteCount)
  have claims : (buildPrice s.byteCount - 5) * r.unclaimed ids ≤
      8 * (s.byteCount + size + 2) * (s.byteCount + size + 2) := by
    refine Nat.mul_le_mul ?_ (by omega)
    rw [buildPrice]
    omega
  unfold Thread.effort stepBound
  rw [← Thread.size_eq]
  dsimp only
  omega

/-- All that a thread can ask for, in surroundings where it begins. -/
def Thread.askable (s : Surroundings) (t : Thread) : List ModuleId :=
  (match t.control with | .request id => [id] | _ => []) ++ t.stack.flatMap Body.wants ++ s.mentions

theorem Thread.within_askable (s : Surroundings) (t : Thread) : t.Within (t.askable s) := by
  refine ⟨fun b mem q hq => ?_, fun id here => ?_⟩
  · refine List.mem_append_left _ (List.mem_append_right _ ?_)
    exact List.mem_flatMap.mpr ⟨b, mem, hq⟩
  · refine List.mem_append_left _ (List.mem_append_left _ ?_)
    rw [here]
    exact List.mem_singleton_self id

theorem Thread.askable_length (s : Surroundings) (t : Thread) :
    (t.askable s).length ≤ s.byteCount + t.size + 1 := by
  have asked : (match t.control with | .request id => [id] | _ => []).length ≤ 1 := by
    split <;> simp
  have wanted : (t.stack.flatMap Body.wants).length ≤ stackSize t.stack := by
    induction t.stack with
    | nil => exact Nat.le_refl _
    | cons b below ih =>
      have := b.wants_length_lt
      rw [List.flatMap_cons, List.length_append, stackSize_cons]
      omega
  have mentioned := s.mentions_length
  rw [askable, List.length_append, List.length_append, t.size_eq]
  omega

/-- A thread that begins comes to rest within the steps it is given. -/
theorem runSteps_rests (s : Surroundings) (me : ThreadId) (r : Registry) {t : Thread}
    {goal : Option ModuleId} (valid : t.Valid goal) (cheap : ∀ n, t.control.price n ≤ 8)
    {size : Nat} (bound : t.size ≤ size) :
    step s me (runSteps s me (stepBound s size) r t).1 (runSteps s me (stepBound s size) r t).2 =
      none :=
  runSteps_stops (fun _ mem => List.mem_append_right _ mem) _ valid (t.within_askable s)
    (effort_le_stepBound cheap (t.askable_length s) bound)

end ModuleSystem
