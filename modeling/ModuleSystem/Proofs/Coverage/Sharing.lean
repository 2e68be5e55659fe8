import ModuleSystem.Loading.Registry
import ModuleSystem.Proofs.Coverage.Parts
import ModuleSystem.Proofs.Coverage.Saving

/-! Any number of threads report to one session and flush it, and their steps follow one another in
any order. A thread that reports counts first and marks the session as dirty after that. A thread
that flushes takes the lock, takes the mark away, and only then takes the counts that it writes; if
it cannot write them, it sets the mark again before it gives the lock back. -/

namespace ModuleSystem.Coverage

/-- What a thread is doing with a session. -/
inductive Doing where
  | nothing
  | reporting (call : RecorderCall)
  /-- It has entered the unit of a call that the session takes; these parts are left. -/
  | counting (call : RecorderCall) (left : List Part)
  /-- It waits for the lock. -/
  | flushing
  | locked
  /-- It has taken the mark away. -/
  | cleared
  | writing (units : List UnitHits)
  /-- It could not write. -/
  | failed
  /-- It is about to give the lock back. -/
  | leaving

namespace Doing

/-- It has the lock. -/
def Holds : Doing → Prop
  | .locked | .cleared | .writing _ | .failed | .leaving => True
  | _ => False

/-- It has counted, or is about to, and has not marked the session yet. -/
def Counts : Doing → Prop
  | .counting .. => True
  | _ => False

/-- It has taken the mark away, and neither written nor set the mark again. -/
def Unsettled : Doing → Prop
  | .cleared | .writing _ | .failed => True
  | _ => False

end Doing

/-- A session that threads share. What was counted and what was written is kept for reference. -/
structure Shared where
  session : Session
  lock : Option ThreadId
  disk : FileTree
  doing : ThreadId → Doing
  counted : List RecorderCall
  written : List (List UnitHits)

namespace Shared

/-- A session that was just started. -/
def opened (dir runId : String) (scope : Option Scope) (disk : FileTree) : Shared :=
  ⟨⟨dir, runId, scope, [], false⟩, none, disk, fun _ => .nothing, [], []⟩

def now (w : Shared) (me : ThreadId) (d : Doing) : Shared :=
  { w with doing := Function.update w.doing me d }

def mark (w : Shared) (dirty : Bool) : Shared := { w with session := { w.session with dirty } }

/-- What was counted, after one part of a call. -/
def nowCounted (counted : List RecorderCall) (call : RecorderCall) (part : Part) :
    List RecorderCall := if part = .count then counted ++ [call] else counted

/-- One part of a call. -/
def part (w : Shared) (call : RecorderCall) (part : Part) : Shared :=
  { w with
    session := { w.session with units := changed call part w.session.units }
    counted := nowCounted w.counted call part }

/-- What can happen next. A write may fail at any time, and then it may leave anything behind. All
else that happens on disk leaves the session's own file alone. -/
inductive Step (w : Shared) : Shared → Prop
  | report {me : ThreadId} (free : w.doing me = .nothing) (call : RecorderCall) :
      Step w (w.now me (.reporting call))
  | ignore {me : ThreadId} {call : RecorderCall} (here : w.doing me = .reporting call)
      (ignored : w.session.accepts call = false) : Step w (w.now me .nothing)
  | enter {me : ThreadId} {call : RecorderCall} (here : w.doing me = .reporting call)
      (accepted : w.session.accepts call = true) :
      Step w ((w.part call .enter).now me (.counting call [.learn, .count]))
  | part {me : ThreadId} {call : RecorderCall} {next : Part} {left : List Part}
      (here : w.doing me = .counting call (next :: left)) :
      Step w ((w.part call next).now me (.counting call left))
  | mark {me : ThreadId} {call : RecorderCall} (here : w.doing me = .counting call []) :
      Step w ((w.mark true).now me .nothing)
  | flush {me : ThreadId} (free : w.doing me = .nothing) : Step w (w.now me .flushing)
  | lock {me : ThreadId} (here : w.doing me = .flushing) (free : w.lock = none) :
      Step w ({ w with lock := some me }.now me .locked)
  | clear {me : ThreadId} (here : w.doing me = .locked) :
      Step w ((w.mark false).now me .cleared)
  | skip {me : ThreadId} (here : w.doing me = .cleared) (unknown : w.session.units = []) :
      Step w (w.now me .leaving)
  | take {me : ThreadId} (here : w.doing me = .cleared) (known : w.session.units ≠ []) :
      Step w (w.now me (.writing w.session.units))
  | write {me : ThreadId} {units : List UnitHits} {disk : FileTree}
      (here : w.doing me = .writing units)
      (saved : ((HitFile.ofUnits w.session.runId units).save w.session.dir).run w.disk =
        (.ok w.session.path, disk)) :
      Step w ({ w with disk, written := w.written ++ [units] }.now me .leaving)
  | fail {me : ThreadId} {units : List UnitHits} {disk : FileTree}
      (here : w.doing me = .writing units) (unlinked : Unlinked w.session.runId disk) :
      Step w ({ w with disk }.now me .failed)
  | remark {me : ThreadId} (here : w.doing me = .failed) :
      Step w ((w.mark true).now me .leaving)
  | unlock {me : ThreadId} (here : w.doing me = .leaving) :
      Step w ({ w with lock := none }.now me .nothing)
  | outside {disk : FileTree} (own : w.session.onDisk disk = w.session.onDisk w.disk)
      (unlinked : Unlinked w.session.runId disk) : Step w { w with disk }

abbrev Reaches : Shared → Shared → Prop := Relation.ReflTransGen Step

/-- A later table has at least the counts of an earlier one, except for spans that were counted so
often that their counters have started again at zero. -/
def Precedes (counted : List RecorderCall) (before after : List UnitHits) : Prop :=
  ∀ unit span hits, hitsIn before unit span = some hits →
    ∃ hits', hitsIn after unit span = some hits' ∧
      (hits ≤ hits' ∨ UInt64.size ≤ counted.count (.record unit span))

/-- The table has counted what was reported. -/
def Tallies (counted : List RecorderCall) (units : List UnitHits) : Prop :=
  ∀ unit span, (hitsIn units unit span).getD 0 =
    UInt64.ofNat (counted.count (.record unit span))

/-- Something holds, unless the session is dirty or will be. -/
def Unless (w : Shared) (p : Prop) : Prop :=
  w.session.dirty = true ∨ (∃ t, (w.doing t).Counts) ∨ p

/-- What was counted is on disk, if there is anything to count. -/
def Written (w : Shared) : Prop :=
  w.session.units = [] ∨
    w.session.onDisk w.disk = some (HitFile.ofUnits w.session.runId w.session.units).bytes

/-- What holds after any number of steps. Whatever is counted after a thread has taken the counts sets
the mark again, so that what the thread writes is all that there is, or the session is dirty. -/
structure Sound (w : Shared) : Prop where
  named : RunId w.session.runId
  unlinked : Unlinked w.session.runId w.disk
  first : w.session.units = [] → w.counted = []
  held : ∀ t, (w.doing t).Holds ↔ w.lock = some t
  order : InOrder w.session.units
  tallies : Tallies w.counted w.session.units
  grown : ∀ units ∈ w.written, Precedes w.counted units w.session.units
  later : w.written.Pairwise (Precedes w.counted)
  /-- What a thread is about to write. -/
  taken : ∀ t units, w.doing t = .writing units → w.Unless (units = w.session.units) ∧
    Precedes w.counted units w.session.units ∧
    ∀ earlier ∈ w.written, Precedes w.counted earlier units
  /-- What is on disk while no thread is about to write. -/
  settled : (∀ t, ¬(w.doing t).Unsettled) → w.Unless w.Written

section

variable {counted : List RecorderCall} {units before after : List UnitHits} {call : RecorderCall}
  {next : Part}

theorem count_nowCounted (unit : String) (span : Span) :
    (nowCounted counted call next).count (.record unit span) =
      counted.count (.record unit span) +
        if next = .count ∧ call = .record unit span then 1 else 0 := by
  rw [nowCounted]
  by_cases counts : next = .count
  · simp [counts, List.count_append, List.count_singleton]
  · simp [counts]

theorem Tallies.part (h : Tallies counted units) (order : InOrder units) :
    Tallies (nowCounted counted call next) (changed call next units) := by
  intro unit span
  have same := h unit span
  rw [hitsIn_change order, count_nowCounted]
  cases call with
  | instrument => split <;> simp [RecorderCall.worth, same]
  | record unit' span' =>
    by_cases here : next = .count ∧ unit = unit' ∧ span = span'
    · obtain ⟨rfl, rfl, rfl⟩ := here
      simp [RecorderCall.unit, RecorderCall.spans, RecorderCall.worth, same]
    · have other : ¬(next = .count ∧ unit' = unit ∧ span' = span) :=
        fun same => here ⟨same.1, same.2.1.symm, same.2.2.symm⟩
      simp [RecorderCall.unit, RecorderCall.spans, here, other, same]

theorem Precedes.mono (h : Precedes counted before after) (call : RecorderCall) (next : Part) :
    Precedes (nowCounted counted call next) before after := by
  intro unit span hits known
  obtain ⟨hits', known', grown⟩ := h unit span hits known
  refine ⟨hits', known', grown.imp_right fun full => ?_⟩
  rw [count_nowCounted]
  exact Nat.le_add_right_of_le full

/-- A counter that does not get larger has started again at zero. -/
theorem le_succ_or_full {hits hits' : UInt64} {count : Nat} (grown : hits ≤ hits')
    (tally : hits' = UInt64.ofNat count) : hits ≤ hits' + 1 ∨ UInt64.size ≤ count + 1 := by
  subst tally
  have size : UInt64.size = 2 ^ 64 := rfl
  rw [UInt64.le_iff_toNat_le, UInt64.toNat_ofNat'] at *
  rw [UInt64.toNat_add, UInt64.toNat_ofNat', UInt64.toNat_one]
  omega

theorem Precedes.part (h : Precedes counted before units) (tallies : Tallies counted units)
    (order : InOrder units) :
    Precedes (nowCounted counted call next) before (changed call next units) := by
  intro unit span hits known
  obtain ⟨hits', known', grown⟩ := h unit span hits known
  have tally := tallies unit span
  rw [known', Option.getD_some] at tally
  rw [hitsIn_change order, known', count_nowCounted]
  split
  · next counts =>
    refine ⟨_, rfl, ?_⟩
    obtain ⟨rfl, rfl, listed⟩ := counts
    cases call with
    | instrument => simpa [RecorderCall.worth] using grown
    | record unit span' =>
      obtain rfl := List.mem_singleton.mp listed
      simp only [RecorderCall.worth, RecorderCall.unit, Option.getD_some, and_self, if_true]
      obtain grown | full := grown
      · exact le_succ_or_full grown tally
      · exact .inr (Nat.le_succ_of_le full)
  · exact ⟨hits', rfl, grown.imp_right Nat.le_add_right_of_le⟩

end

/-! ### Steps -/

section

variable {w w' : Shared} {me : ThreadId} {d : Doing} {p q : Prop}

theorem doing_now_self (w : Shared) (me : ThreadId) (d : Doing) : (w.now me d).doing me = d :=
  Function.update_self ..

theorem doing_now_ne {t : ThreadId} (other : t ≠ me) (w : Shared) (d : Doing) :
    (w.now me d).doing t = w.doing t := Function.update_of_ne other ..

theorem Unless.mono (h : w.Unless p) (dirty : w.session.dirty = true → w'.session.dirty = true)
    (counts : ∀ t, (w.doing t).Counts → (w'.doing t).Counts) (implies : p → q) :
    w'.Unless q := by
  obtain marked | ⟨t, busy⟩ | holds := h
  · exact .inl (dirty marked)
  · exact .inr (.inl ⟨t, counts t busy⟩)
  · exact .inr (.inr (implies holds))

/-- Who has the lock stays as it is while nobody takes or leaves it. -/
theorem held_now (h : ∀ t, (w.doing t).Holds ↔ w.lock = some t)
    (same : d.Holds ↔ (w.doing me).Holds) (t : ThreadId) :
    ((w.now me d).doing t).Holds ↔ w.lock = some t := by
  by_cases mine : t = me
  · subst mine
    rw [doing_now_self, same, h]
  · rw [doing_now_ne mine, h]

theorem counts_now (same : (w.doing me).Counts → d.Counts) (t : ThreadId)
    (counts : (w.doing t).Counts) : ((w.now me d).doing t).Counts := by
  by_cases mine : t = me
  · subst mine
    rw [doing_now_self]
    exact same counts
  · rwa [doing_now_ne mine]

/-- Nobody is settling a write any more who was not before, if that holds of the thread itself. -/
theorem unsettled_now (same : (w.doing me).Unsettled → d.Unsettled)
    (quiet : ∀ t, ¬((w.now me d).doing t).Unsettled) (t : ThreadId) : ¬(w.doing t).Unsettled := by
  intro unsettled
  apply quiet t
  by_cases mine : t = me
  · subst mine
    rw [doing_now_self]
    exact same unsettled
  · rwa [doing_now_ne mine]

theorem settling (unsettled : d.Unsettled) (quiet : ∀ t, ¬((w.now me d).doing t).Unsettled) :
    False := by
  apply quiet me
  rwa [doing_now_self]

theorem writing_now {t : ThreadId} {units : List UnitHits} (silent : ∀ units, d ≠ .writing units)
    (here : (w.now me d).doing t = .writing units) : w.doing t = .writing units := by
  by_cases mine : t = me
  · subst mine
    rw [doing_now_self] at here
    exact absurd here (silent units)
  · rwa [doing_now_ne mine] at here

namespace Sound

/-- Two threads do not have the lock at once. -/
theorem exclusive (h : w.Sound) {s t : ThreadId} (first : (w.doing s).Holds)
    (second : (w.doing t).Holds) : s = t := by
  have lock := (h.held s).mp first
  rw [(h.held t).mp second] at lock
  exact (Option.some.inj lock).symm

/-- A step that only leads a thread from one thing to do to another. -/
theorem turn (h : w.Sound) {lock : Option ThreadId}
    (held : ∀ t, ((w.now me d).doing t).Holds ↔ lock = some t)
    (counts : (w.doing me).Counts → d.Counts) (unsettled : (w.doing me).Unsettled → d.Unsettled)
    (silent : ∀ units, d ≠ .writing units) : Sound ({ w with lock }.now me d) := by
  refine { h with held, taken := ?_, settled := ?_ }
  · intro t units here
    obtain ⟨same, grown, later⟩ := h.taken t units (writing_now silent here)
    exact ⟨same.mono (fun dirty => dirty) (counts_now counts) fun same => same, grown, later⟩
  · intro quiet
    apply (h.settled (unsettled_now unsettled quiet)).mono _ (counts_now counts) fun saved => saved
    exact fun dirty => dirty

/-- One part of a call. -/
theorem part (h : w.Sound) (free : ¬(w.doing me).Holds) (call : RecorderCall) (next : Part)
    (left : List Part) : Sound ((w.part call next).now me (.counting call left)) := by
  -- The thread will mark the session, so nothing has to be on disk before it does.
  have busy : ∀ p, Unless ((w.part call next).now me (.counting call left)) p := by
    intro p
    refine .inr (.inl ⟨me, ?_⟩)
    rw [doing_now_self]
    trivial
  constructor
  · exact h.named
  · exact h.unlinked
  · intro none
    exact absurd none (updateUnit_ne_nil _ _ _)
  · exact held_now h.held (iff_of_false (fun none => none) free)
  · exact h.order.change call next
  · exact h.tallies.part h.order
  · intro units mem
    exact (h.grown units mem).part h.tallies h.order
  · exact h.later.imp fun grown => grown.mono call next
  · intro t units here
    obtain ⟨_, grown, later⟩ := h.taken t units (writing_now (w := w.part call next) (by simp) here)
    exact ⟨busy _, grown.part h.tallies h.order,
      fun earlier mem => (later earlier mem).mono call next⟩
  · intro _
    exact busy _

/-- The session is marked. -/
theorem mark (h : w.Sound) (held : d.Holds ↔ (w.doing me).Holds)
    (silent : ∀ units, d ≠ .writing units) : Sound ((w.mark true).now me d) := by
  refine { h with held := held_now h.held held, taken := ?_, settled := fun _ => .inl rfl }
  intro t units here
  obtain ⟨_, grown, later⟩ := h.taken t units (writing_now (w := w.mark true) silent here)
  exact ⟨.inl rfl, grown, later⟩

/-- While a thread has the lock, nobody else writes. -/
theorem alone (h : w.Sound) (mine : (w.doing me).Holds) (silent : ∀ units, d ≠ .writing units)
    (t : ThreadId) (units : List UnitHits) : (w.now me d).doing t ≠ .writing units := by
  intro here
  have writes := writing_now silent here
  have holds : (w.doing t).Holds := by rw [writes]; trivial
  obtain rfl := h.exclusive holds mine
  rw [doing_now_self] at here
  exact silent units here

theorem lock (h : w.Sound) (here : w.doing me = .flushing) (free : w.lock = none) :
    Sound ({ w with lock := some me }.now me .locked) := by
  apply h.turn _ (by simp [here, Doing.Counts]) (by simp [here, Doing.Unsettled]) (by simp)
  intro t
  by_cases mine : t = me
  · subst mine
    rw [doing_now_self]
    exact iff_of_true trivial rfl
  · have away : ¬some me = some t := fun same => mine (Option.some.inj same).symm
    rw [doing_now_ne mine, h.held, free]
    exact iff_of_false (by simp) away

theorem unlock (h : w.Sound) (here : w.doing me = .leaving) :
    Sound ({ w with lock := none }.now me .nothing) := by
  have mine : w.lock = some me := (h.held me).mp (by rw [here]; trivial)
  apply h.turn _ (by simp [here, Doing.Counts]) (by simp [here, Doing.Unsettled]) (by simp)
  intro t
  by_cases same : t = me
  · subst same
    rw [doing_now_self]
    exact iff_of_false id (by simp)
  · have away : ¬some me = some t := fun equal => same (Option.some.inj equal).symm
    rw [doing_now_ne same, h.held, mine]
    exact iff_of_false away (by simp)

theorem clear (h : w.Sound) (here : w.doing me = .locked) :
    Sound ((w.mark false).now me .cleared) := by
  have mine : (w.doing me).Holds := by rw [here]; trivial
  refine { h with held := held_now h.held (iff_of_true trivial mine), taken := ?_, settled := ?_ }
  · intro t units writes
    exact absurd writes (h.alone mine (by simp) t units)
  · exact fun quiet => (settling (d := .cleared) trivial quiet).elim

theorem skip (h : w.Sound) (here : w.doing me = .cleared) (unknown : w.session.units = []) :
    Sound (w.now me .leaving) := by
  have mine : (w.doing me).Holds := by rw [here]; trivial
  refine { h with held := held_now h.held (iff_of_true trivial mine), taken := ?_, settled := ?_ }
  · intro t units writes
    exact absurd writes (h.alone mine (by simp) t units)
  · intro _
    exact .inr (.inr (.inl unknown))

/-- The counts are taken as they are now, and nothing has been counted since. -/
theorem take (h : w.Sound) (here : w.doing me = .cleared) :
    Sound (w.now me (.writing w.session.units)) := by
  have mine : (w.doing me).Holds := by rw [here]; trivial
  refine { h with held := held_now h.held (iff_of_true trivial mine), taken := ?_, settled := ?_ }
  · intro t units writes
    by_cases same : t = me
    · subst same
      rw [doing_now_self] at writes
      cases writes
      exact ⟨.inr (.inr rfl), fun unit span hits known => ⟨hits, known, .inl (UInt64.le_refl hits)⟩,
        h.grown⟩
    · rw [doing_now_ne same] at writes
      have holds : (w.doing t).Holds := by rw [writes]; trivial
      exact absurd (h.exclusive holds mine) same
  · exact fun quiet => (settling (d := .writing w.session.units) trivial quiet).elim

theorem write (h : w.Sound) {units : List UnitHits} {disk : FileTree}
    (here : w.doing me = .writing units)
    (saved : ((HitFile.ofUnits w.session.runId units).save w.session.dir).run w.disk =
      (.ok w.session.path, disk)) :
    Sound ({ w with disk, written := w.written ++ [units] }.now me .leaving) := by
  have mine : (w.doing me).Holds := by rw [here]; trivial
  obtain ⟨same, grown, later⟩ := h.taken me units here
  obtain ⟨unlinked, reads⟩ := Session.saved_of_save h.named h.unlinked saved
  refine { h with
    unlinked
    held := held_now h.held (iff_of_true trivial mine)
    grown := ?_
    later := ?_
    taken := ?_
    settled := ?_ }
  · intro last mem
    obtain old | new := List.mem_append.mp mem
    · exact h.grown last old
    · rw [List.mem_singleton.mp new]
      exact grown
  · apply List.pairwise_append.mpr
    refine ⟨h.later, List.pairwise_singleton _ _, fun earlier old last new => ?_⟩
    rw [List.mem_singleton.mp new]
    exact later earlier old
  · intro t units writes
    exact absurd writes (h.alone mine (by simp) t units)
  · intro _
    refine same.mono (fun dirty => dirty) (counts_now (by simp [here, Doing.Counts])) ?_
    rintro rfl
    exact .inr reads

theorem fail (h : w.Sound) {units : List UnitHits} {disk : FileTree}
    (here : w.doing me = .writing units) (unlinked : Unlinked w.session.runId disk) :
    Sound ({ w with disk }.now me .failed) := by
  have mine : (w.doing me).Holds := by rw [here]; trivial
  refine { h with
    unlinked
    held := held_now h.held (iff_of_true trivial mine)
    taken := ?_
    settled := ?_ }
  · intro t units writes
    exact absurd writes (h.alone mine (by simp) t units)
  · exact fun quiet => (settling (d := .failed) trivial quiet).elim

theorem outside (h : w.Sound) {disk : FileTree}
    (own : w.session.onDisk disk = w.session.onDisk w.disk)
    (unlinked : Unlinked w.session.runId disk) : Sound { w with disk } := by
  refine { h with unlinked, settled := fun quiet => ?_ }
  apply (h.settled quiet).mono id fun _ => id
  apply Or.imp_right
  intro saved
  exact own.trans saved

/-- Every step keeps all of this. -/
theorem step (h : w.Sound) (moved : Step w w') : w'.Sound := by
  cases moved with
  | report free call =>
    apply h.turn (held_now h.held _) <;> simp [free, Doing.Holds, Doing.Counts, Doing.Unsettled]
  | ignore here _ | flush here =>
    apply h.turn (held_now h.held _) <;> simp [here, Doing.Holds, Doing.Counts, Doing.Unsettled]
  | enter here _ | part here => exact h.part (by rw [here]; exact id) _ _ _
  | mark here | remark here => exact h.mark (by simp [here, Doing.Holds]) (by simp)
  | lock here free => exact h.lock here free
  | clear here => exact h.clear here
  | skip here unknown => exact h.skip here unknown
  | take here _ => exact h.take here
  | write here saved => exact h.write here saved
  | fail here unlinked => exact h.fail here unlinked
  | unlock here => exact h.unlock here
  | outside own unlinked => exact h.outside own unlinked

theorem opened (dir : String) {runId : String} (scope : Option Scope) {disk : FileTree}
    (named : RunId runId) (unlinked : Unlinked runId disk) :
    (Shared.opened dir runId scope disk).Sound := by
  refine ⟨named, unlinked, fun _ => rfl, ?_, .nil, fun _ _ => rfl, ?_, List.Pairwise.nil, ?_,
    fun _ => .inr (.inr (.inl rfl))⟩
  · intro t
    exact iff_of_false id (by simp [Shared.opened])
  · intro units none
    cases none
  · intro t units none
    cases none

end Sound

end

theorem Reaches.sound {dir runId : String} {scope : Option Scope} {disk : FileTree} {w : Shared}
    (named : RunId runId) (unlinked : Unlinked runId disk)
    (h : Reaches (opened dir runId scope disk) w) : w.Sound := by
  induction h with
  | refl => exact .opened dir scope named unlinked
  | tail _ moved ih => exact ih.step moved

/-! ### One operation at a time -/

section

variable {w : Shared} {me : ThreadId}

theorem now_now (w : Shared) (me : ThreadId) (d d' : Doing) : (w.now me d).now me d' = w.now me d' := by
  simp only [now, Function.update_idem]

theorem update_same {d : Doing} (here : w.doing me = d) :
    Function.update w.doing me d = w.doing := by
  rw [← here, Function.update_eq_self]

theorem now_same {d : Doing} (here : w.doing me = d) : w.now me d = w := by
  rw [now, update_same here]

theorem part_now (w : Shared) (me : ThreadId) (d : Doing) (call : RecorderCall) (next : Part) :
    (w.now me d).part call next = (w.part call next).now me d := rfl

theorem mark_now (w : Shared) (me : ThreadId) (d : Doing) (dirty : Bool) :
    (w.now me d).mark dirty = (w.mark dirty).now me d := rfl

/-- What has become of a call, for reference. -/
def nowHeard (w : Shared) (call : RecorderCall) : List RecorderCall :=
  if w.session.accepts call then w.counted ++ [call] else w.counted

/-- A thread whose steps are not interrupted reports a call as a session takes it. -/
theorem Reaches.hear (me : ThreadId) (free : w.doing me = .nothing) (call : RecorderCall) :
    Reaches w { w with session := w.session.hear call, counted := w.nowHeard call } := by
  have begun : Reaches w (w.now me (.reporting call)) := .single (.report free call)
  have here := doing_now_self w me (.reporting call)
  rw [nowHeard, Session.hear_parts]
  cases accepted : w.session.accepts call with
  | false =>
    have done := begun.tail (.ignore here accepted)
    rwa [now_now, now_same free] at done
  | true =>
    have entered := begun.tail (.enter here accepted)
    have learned := entered.tail (.part (doing_now_self ..))
    have counted := learned.tail (.part (doing_now_self ..))
    have marked := counted.tail (.mark (doing_now_self ..))
    have still : (((w.part call .enter).part call .learn).part call .count |>.mark true).doing me =
        .nothing := free
    simp only [part_now, mark_now, now_now, now_same still] at marked
    exact marked

/-- What has become of a flush, for reference. -/
def nowWritten (w : Shared) : Except CoverageError (Option String) → List (List UnitHits)
  | .ok (some _) => w.written ++ [w.session.units]
  | _ => w.written

/-- A thread whose steps are not interrupted flushes as a session does by itself. -/
theorem Reaches.flush (h : w.Sound) (me : ThreadId) (free : w.doing me = .nothing)
    (lock : w.lock = none) : Reaches w
      { w with
        session := (w.session.flush.run w.disk).1.1
        disk := (w.session.flush.run w.disk).2
        written := w.nowWritten (w.session.flush.run w.disk).1.2 } := by
  have asked : Reaches w (w.now me .flushing) := .single (.flush free)
  have locked := asked.tail (.lock (doing_now_self ..) lock)
  have cleared := locked.tail (.clear (doing_now_self ..))
  by_cases unknown : w.session.units = []
  · have skipped := cleared.tail (.skip (doing_now_self ..) unknown)
    have left := skipped.tail (.unlock (doing_now_self ..))
    rw [Session.flush_unknown unknown]
    simp only [now, mark, Function.update_idem, update_same free, ← lock] at left
    exact left
  have taken := cleared.tail (.take (doing_now_self ..) unknown)
  rw [Session.flush_known unknown]
  rcases saved : ((HitFile.ofUnits w.session.runId w.session.units).save w.session.dir).run w.disk
    with ⟨answer, disk⟩
  cases answer with
  | ok path =>
    obtain rfl := Session.path_of_save h.named h.unlinked saved
    have written := taken.tail (.write (doing_now_self ..) saved)
    have left := written.tail (.unlock (doing_now_self ..))
    simp only [now, mark, Function.update_idem, update_same free, ← lock] at left
    exact left
  | error e =>
    have still : Unlinked w.session.runId disk := by
      have after := HitFile.unlinked_of_save (HitFile.ofUnits w.session.runId w.session.units)
        w.session.dir h.named h.unlinked
      rwa [saved] at after
    have failed := taken.tail (.fail (doing_now_self ..) still)
    have marked := failed.tail (.remark (doing_now_self ..))
    have left := marked.tail (.unlock (doing_now_self ..))
    simp only [now, mark, Function.update_idem, update_same free, ← lock] at left
    exact left

end

/-! ### Nothing is left unwritten -/

/-- However threads report and flush, and whichever of their writes fail: when no call is in progress,
the table has counted all that was reported, and a session that is not dirty has it on disk, unless
there was nothing to count. A session that is closed where its directory works has it on disk too.
No file that is written has smaller counts than one that was written before. -/
theorem nothing_unwritten {dir runId : String} {scope : Option Scope} {disk : FileTree} {w : Shared}
    (named : RunId runId) (unlinked : Unlinked runId disk)
    (h : Reaches (opened dir runId scope disk) w) :
    ((∀ t, w.doing t = .nothing) →
      Tallies w.counted w.session.units ∧
      (w.session.dirty = false → w.counted = [] ∨ w.session.Saved w.disk) ∧
      (w.session.Works w.disk → w.counted = [] ∨ w.session.Saved (w.session.close.run w.disk).2)) ∧
    w.written.Pairwise (Precedes w.counted) := by
  have sound := h.sound named unlinked
  refine ⟨fun quiet => ?_, sound.later⟩
  have clean : w.session.dirty = false → w.counted = [] ∨ w.session.Saved w.disk := by
    intro clean
    obtain dirty | ⟨t, counts⟩ | written := sound.settled fun t => by rw [quiet t]; exact id
    · rw [clean] at dirty
      cases dirty
    · rw [quiet t] at counts
      exact counts.elim
    · exact written.imp sound.first Session.saved_of_onDisk
  refine ⟨sound.tallies, clean, fun works => ?_⟩
  cases dirty : w.session.dirty with
  | false =>
    rw [Session.close_clean dirty]
    exact clean dirty
  | true =>
    by_cases unknown : w.session.units = []
    · exact .inl (sound.first unknown)
    · exact .inr (Session.saved_of_close sound.named sound.unlinked dirty unknown works)

/-- One thread reports a hit, and another one flushes the session. -/
theorem nothing_unwritten_flushed : ∃ w : Shared, RunId "a" ∧
    Unlinked "a" (FileTree.empty ["data"]) ∧
    Reaches (opened "/data" "a" none (FileTree.empty ["data"])) w ∧ (∀ t, w.doing t = .nothing) ∧
    w.session.dirty = false ∧ w.counted = [.record "m" ⟨1, 1⟩] ∧ w.session.Saved w.disk := by
  have named : RunId "a" := ⟨by decide, by decide, by decide⟩
  have unlinked : Unlinked "a" (FileTree.empty ["data"]) := by
    intro place target link
    rw [FileTree.node?_concat] at link
    change List.lookup _ [(["data"], FileNode.dir)] = _ at link
    rw [List.lookup_cons] at link
    split at link <;> cases link
  obtain ⟨s, opens⟩ : ∃ s : Session, s = ⟨"/data", "a", none, [], false⟩ := ⟨_, rfl⟩
  obtain ⟨s', hears⟩ : ∃ s', s' = s.hear (.record "m" ⟨1, 1⟩) := ⟨_, rfl⟩
  have heard : Reaches (opened "/data" "a" none (FileTree.empty ["data"]))
      ⟨s', none, FileTree.empty ["data"], fun _ => .nothing, [.record "m" ⟨1, 1⟩], []⟩ := by
    subst hears opens
    exact Reaches.hear 0 rfl (.record "m" ⟨1, 1⟩)
  have known : s'.units ≠ [] := by
    subst hears opens
    decide
  have found : (FileTree.empty ["data"]).find s'.dir = .ok (["data"], .dir) := by
    subst hears opens
    decide +kernel
  have no_dir : (FileTree.empty ["data"]).node? (["data"] ++ [HitFile.fileName s'.runId]) ≠
      some .dir := by
    subst hears opens
    decide +kernel
  have runId : s'.runId = "a" := by
    subst hears opens
    rfl
  obtain ⟨path, disk, saved⟩ := Session.works_of_find (runId ▸ named) found no_dir
  have flushed := heard.trans (Reaches.flush (heard.sound named unlinked) 1 rfl rfl)
  rw [Session.flush_known known, saved] at flushed
  have quiet := (nothing_unwritten named unlinked flushed).1 fun _ => rfl
  refine ⟨_, named, unlinked, flushed, fun _ => rfl, rfl, rfl, ?_⟩
  exact (quiet.2.1 rfl).resolve_left (List.cons_ne_nil _ _)

end Shared
end ModuleSystem.Coverage
