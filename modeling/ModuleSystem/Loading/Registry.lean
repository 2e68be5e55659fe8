import ModuleSystem.Loading.Failure
import ModuleSystem.Loading.Recorder

/-! What all threads share while they load: for each module that was asked for, who is loading it or
how that ended; which thread waits for which module; and what was reported. -/

namespace ModuleSystem

abbrev ThreadId := Nat

/-- A module that was claimed once. -/
inductive Cell where
  | loading (owner : ThreadId)
  | done (outcome : Outcome)

inductive ModuleState where
  | unloaded
  | loading
  | loaded (m : ModuleInstance)
  | failed (e : LoadError)

/-- What a compiler and an evaluator were asked to do. -/
inductive Event where
  | compiled (source : String)
  | started (unit : String)
  deriving DecidableEq, Repr

structure Registry where
  /-- In the order in which the modules were claimed. -/
  cells : List (ModuleId × Cell)
  waits : List (ThreadId × ModuleId)
  recorder : Recorder
  journal : List Event

namespace Registry

def empty (recorder : Recorder) : Registry := ⟨[], [], recorder, []⟩

def cell? (r : Registry) (id : ModuleId) : Option Cell := r.cells.lookup id

def claim (r : Registry) (id : ModuleId) (owner : ThreadId) : Registry :=
  { r with cells := r.cells ++ [(id, .loading owner)] }

def setCell (id : ModuleId) (cell : Cell) : List (ModuleId × Cell) → List (ModuleId × Cell)
  | [] => []
  | (x, c) :: rest => if x = id then (x, cell) :: rest else (x, c) :: setCell id cell rest

/-- Ends the load of a claimed module. -/
def publish (r : Registry) (id : ModuleId) (outcome : Outcome) : Registry :=
  { r with cells := setCell id (.done outcome) r.cells }

def wait (r : Registry) (thread : ThreadId) (id : ModuleId) : Registry :=
  { r with waits := (thread, id) :: r.waits }

def wake (r : Registry) (thread : ThreadId) : Registry :=
  { r with waits := r.waits.filter (·.1 ≠ thread) }

def note (r : Registry) (event : Event) : Registry := { r with journal := r.journal ++ [event] }

def instrument (r : Registry) (unit : String) (kind : Coverage.UnitKind) (source : String)
    (spans : List Coverage.Span) : Registry :=
  { r with recorder := r.recorder.instrument unit kind source spans }

def record (r : Registry) (unit : String) (span : Coverage.Span) : Registry :=
  { r with recorder := r.recorder.record unit span }

def state (r : Registry) (id : ModuleId) : ModuleState :=
  match r.cell? id with
  | none => .unloaded
  | some (.loading _) => .loading
  | some (.done (.ok m)) => .loaded m
  | some (.done (.error e)) => .failed e

def lookup (r : Registry) (id : ModuleId) : Option ModuleInstance :=
  match r.cell? id with
  | some (.done (.ok m)) => some m
  | _ => none

/-- The modules that are loaded, in order. -/
def loaded (r : Registry) : List ModuleId :=
  sortIds (r.cells.filterMap fun
    | (id, .done (.ok _)) => some id
    | _ => none)

/-- Gives a module that is already complete its place, unless the place is taken. -/
def register (r : Registry) (m : ModuleInstance) : Registry × Outcome :=
  match r.cell? m.id with
  | some _ => (r, .error (.alreadyRegistered m.id))
  | none => ({ r with cells := r.cells ++ [(m.id, .done (.ok m))] }, .ok m)

/-- Follows who waits for whom, from a module that is loading. If that leads to `me`, waiting would
never end, and the chain closes: `mine` gives the loads of `me` from a module on. -/
def deadlock? (r : Registry) (me : ThreadId) (mine : ModuleId → List ModuleId) :
    Nat → ModuleId → List ModuleId → Option (List ModuleId)
  | 0, _, _ => none
  | fuel + 1, awaited, links =>
    match r.cell? awaited with
    | some (.loading owner) =>
      let links := links ++ [awaited]
      if owner = me then
        let own := mine awaited
        some ((if own.isEmpty then [awaited] else own) ++ links)
      else
        match r.waits.lookup owner with
        | some next => deadlock? r me mine fuel next links
        | none => none
    | _ => none

end Registry
end ModuleSystem
