import ModuleSystem.Loading.Registry

namespace ModuleSystem.Registry

theorem lookup_cons_eq {α β : Type} [DecidableEq α] (x k : α) (v : β) (l : List (α × β)) :
    ((k, v) :: l).lookup x = if x = k then some v else l.lookup x := by
  by_cases h : x = k
  · subst h
    simp
  · have different : (x == k) = false := beq_eq_false_iff_ne.mpr h
    simp [List.lookup_cons, different, h]

theorem lookup_setCell (id x : ModuleId) (cell : Cell) (cells : List (ModuleId × Cell)) :
    (setCell id cell cells).lookup x =
      if x = id then (cells.lookup id).map fun _ => cell else cells.lookup x := by
  induction cells with
  | nil => simp [setCell]
  | cons first rest ih =>
    obtain ⟨k, c⟩ := first
    rw [setCell]
    by_cases hk : k = id
    · subst hk
      simp only [if_pos, lookup_cons_eq]
      split <;> rfl
    · simp only [if_neg hk, lookup_cons_eq, ih, if_neg (Ne.symm hk)]
      by_cases hx : x = k
      · subst hx
        simp [hk]
      · simp [hx]

theorem keys_setCell (id : ModuleId) (cell : Cell) (cells : List (ModuleId × Cell)) :
    (setCell id cell cells).map (·.1) = cells.map (·.1) := by
  induction cells with
  | nil => rfl
  | cons first rest ih =>
    rw [setCell]
    split <;> simp_all

theorem cell?_congr {r r' : Registry} (h : r'.cells = r.cells) (x : ModuleId) :
    r'.cell? x = r.cell? x := by
  rw [cell?, h, cell?]

/-- A cell that is added at the end decides only for modules without one. -/
theorem lookup_push {r : Registry} {id : ModuleId} (h : r.cell? id = none) (c : Cell)
    (x : ModuleId) : (r.cells ++ [(id, c)]).lookup x = if x = id then some c else r.cell? x := by
  rw [List.lookup_append, lookup_cons_eq, List.lookup_nil]
  by_cases hx : x = id
  · subst hx
    rw [cell?] at h
    simp [h]
  · simp [hx, cell?]

theorem cell?_claim {r : Registry} {id : ModuleId} (h : r.cell? id = none) (me : ThreadId)
    (x : ModuleId) :
    (r.claim id me).cell? x = if x = id then some (.loading me) else r.cell? x :=
  lookup_push h (.loading me) x

theorem cell?_publish (r : Registry) (id : ModuleId) (o : Outcome) (x : ModuleId) :
    (r.publish id o).cell? x =
      if x = id then (r.cell? id).map fun _ => .done o else r.cell? x :=
  lookup_setCell id x (.done o) r.cells

/-- Where the outcome of a module comes from that has one after `k` was published. -/
theorem done_of_publish {r r₁ : Registry} (quiet : r₁.cells = r.cells) {k id : ModuleId}
    {new o : Outcome} (found : (r₁.publish k new).cell? id = some (.done o)) :
    r.cell? id = some (.done o) ∨ id = k ∧ o = new := by
  rw [cell?_publish, cell?_congr quiet, cell?_congr quiet] at found
  split at found
  · next same =>
    obtain ⟨_, _, new⟩ := Option.map_eq_some_iff.mp found
    cases new
    exact .inr ⟨same, rfl⟩
  · exact .inl found

@[simp] theorem cell?_wait (r : Registry) (me : ThreadId) (id x : ModuleId) :
    (r.wait me id).cell? x = r.cell? x := rfl

theorem register_of_some {r : Registry} {m : ModuleInstance} {c : Cell}
    (h : r.cell? m.id = some c) : r.register m = (r, .error (.alreadyRegistered m.id)) := by
  rw [register, h]

theorem register_of_none {r : Registry} {m : ModuleInstance} (h : r.cell? m.id = none) :
    r.register m = ({ r with cells := r.cells ++ [(m.id, .done (.ok m))] }, .ok m) := by
  rw [register, h]

/-- The modules that were ever claimed or registered, in that order. -/
def claimed (r : Registry) : List ModuleId := r.cells.map (·.1)

theorem claimed_congr {r r' : Registry} (h : r'.cells = r.cells) : r'.claimed = r.claimed := by
  rw [claimed, h, claimed]

@[simp] theorem claimed_claim (r : Registry) (id : ModuleId) (me : ThreadId) :
    (r.claim id me).claimed = r.claimed ++ [id] := by
  simp [claimed, claim]

@[simp] theorem claimed_publish (r : Registry) (id : ModuleId) (o : Outcome) :
    (r.publish id o).claimed = r.claimed := keys_setCell id _ r.cells

theorem cell?_eq_none_iff {r : Registry} {id : ModuleId} : r.cell? id = none ↔ id ∉ r.claimed := by
  rw [cell?, List.lookup_eq_none_iff, claimed]
  simp only [List.mem_map, not_exists, not_and]
  constructor
  · intro h p hp heq
    simpa [heq] using h p hp
  · intro h p hp
    simpa using fun heq => h p hp heq.symm

theorem mem_claimed_iff {r : Registry} {id : ModuleId} :
    id ∈ r.claimed ↔ ∃ c, r.cell? id = some c := by
  rw [← Option.isSome_iff_exists, Option.isSome_iff_ne_none, ne_eq, cell?_eq_none_iff,
    Decidable.not_not]

theorem nodup_push {r : Registry} {id : ModuleId} (keys : r.claimed.Nodup)
    (new : r.cell? id = none) : (r.claimed ++ [id]).Nodup := by
  refine List.nodup_append.mpr ⟨keys, by simp, ?_⟩
  rintro x mem y last rfl
  rw [List.mem_singleton.mp last] at mem
  exact cell?_eq_none_iff.mp new mem

theorem claimed_register {r : Registry} {m : ModuleInstance} (h : r.cell? m.id = none) :
    (r.register m).1.claimed = r.claimed ++ [m.id] := by
  rw [register_of_none h, claimed, claimed]
  simp

/-- The module that a thread waits for. -/
def waiting? (r : Registry) (me : ThreadId) : Option ModuleId := r.waits.lookup me

theorem waiting?_congr {r r' : Registry} (h : r'.waits = r.waits) (x : ThreadId) :
    r'.waiting? x = r.waiting? x := by
  rw [waiting?, h, waiting?]

theorem waiting?_wait (r : Registry) (me : ThreadId) (id : ModuleId) (x : ThreadId) :
    (r.wait me id).waiting? x = if x = me then some id else r.waiting? x :=
  lookup_cons_eq x me id r.waits

theorem waiting?_wake (r : Registry) (me x : ThreadId) :
    (r.wake me).waiting? x = if x = me then none else r.waiting? x := by
  rw [waiting?, wake, waiting?]
  induction r.waits with
  | nil => simp
  | cons first rest ih =>
    obtain ⟨k, id⟩ := first
    by_cases hk : k = me
    · subst hk
      rw [List.filter_cons_of_neg (by simp), ih, lookup_cons_eq]
      by_cases hx : x = k <;> simp [hx]
    · rw [List.filter_cons_of_pos (by simpa using hk), lookup_cons_eq, lookup_cons_eq, ih]
      by_cases hx : x = k
      · subst hx
        simp [hk]
      · simp [hx]

end ModuleSystem.Registry
