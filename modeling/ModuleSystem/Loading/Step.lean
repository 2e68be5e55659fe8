import ModuleSystem.Loading.Thread
import ModuleSystem.Form.Compile
import ModuleSystem.Repository.Chain

/-! The steps of a thread. Each of them touches what the threads share at most once, so that steps
of several threads may follow one another in any order. -/

namespace ModuleSystem

/-- What does not change while threads run. -/
structure Surroundings where
  files : FileTree
  chain : Chain
  /-- Units whose bodies are held back before they begin. -/
  held : List String
  /-- Units whose bodies break off when they begin. -/
  broken : List String

/-- What a module consists of, once it was found. -/
inductive Found where
  | complete (m : ModuleInstance)
  | source (name text : String)

/-- Asks the repositories for a module. -/
def Surroundings.find (s : Surroundings) (id : ModuleId) : Except LoadError Found :=
  match s.chain.resolve s.files id with
  | .error e => .error (.repository e)
  | .ok none => .error (.notFound id s.chain.describe)
  | .ok (some location) =>
    match location.read s.files with
    | .error e => .error (.repository e)
    | .ok (.prebuilt p) => .ok (.complete (p.instantiate id location.sourceName))
    | .ok (.text text) => .ok (.source location.sourceName text)

/-- Compiles a source and makes its spans known. -/
def Registry.compile (r : Registry) (unit : BodyUnit) (source text : String) :
    Registry × Except LoadError Form.Program :=
  let r := r.note (.compiled source)
  match Form.compile unit.isModule text with
  | .ok program =>
    ((r.instrument unit.text unit.kind source program.spans).note (.started unit.text),
      .ok program)
  | .error e => (r, .error (.compile unit.text e.span e.message))

/-- The end of the innermost body. Only a module whose forms all ran can be sealed. -/
def leave (r : Registry) (b : Body) (below : List Body) (result : Except LoadError Unit) :
    Registry × Thread :=
  match b.unit with
  | .module id =>
    let outcome := result.bind fun () => b.sealed id
    (r.publish id outcome, ⟨below, .answer outcome⟩)
  | .script _ => (r, ⟨[], .ended (.ran b.scope (result.map fun () => b.results))⟩)

/-- What waiters are told of a module whose body broke off. -/
def abandoned (id : ModuleId) : LoadError :=
  .execution id.text none "the load was abandoned before it finished"

/-- One step of a thread; `none` when it has ended or cannot go on yet. -/
def step (s : Surroundings) (me : ThreadId) (r : Registry) (t : Thread) :
    Option (Registry × Thread) :=
  match t.control, t.stack with
  | .request id, _ =>
    let mine := t.modulesFrom id
    if !mine.isEmpty then some (r, { t with control := .answer (.error (.cycle (mine ++ [id]))) })
    else
      match r.cell? id with
      | some _ => some (r, { t with control := .look id })
      | none => some (r.claim id me, { t with control := .build id })
  | .look id, _ =>
    match r.cell? id with
    | some (.done outcome) => some (r, { t with control := .answer outcome })
    | some (.loading _) => some (r, { t with control := .park id })
    | none => none
  | .park id, _ =>
    match r.deadlock? me t.modulesFrom (r.waits.length + 1) id [] with
    | some chain => some (r, { t with control := .answer (.error (.cycle chain)) })
    | none => some (r.wait me id, { t with control := .waiting id })
  | .waiting id, _ =>
    match r.cell? id with
    | some (.done outcome) => some (r.wake me, { t with control := .answer outcome })
    | _ => none
  | .build id, stack =>
    let publish (r : Registry) (outcome : Outcome) : Option (Registry × Thread) :=
      some (r.publish id outcome, { t with control := .answer outcome })
    match s.find id with
    | .error e => publish r (.error e)
    | .ok (.complete m) => publish r (.ok m)
    | .ok (.source name text) =>
      match r.compile (.module id) name text with
      | (r, .error e) => publish r (.error e)
      | (r, .ok program) => some (r, ⟨.start (.module id) name .empty program :: stack, .enter⟩)
  | .enter, b :: _ =>
    if s.held.contains b.unit.text then none
    else if s.broken.contains b.unit.text then some (r, { t with control := .unwind })
    else some (r, { t with control := .run })
  | .run, b :: below =>
    match b.pending, b.rest with
    | id :: _, _ => some (r, { t with control := .request id })
    | [], [] => some (leave r b below (.ok ()))
    | [], form :: rest =>
      let r := r.record b.unit.text form.span
      match { b with rest }.perform form with
      | .ok b => some (r, ⟨b :: below, .run⟩)
      | .error e => some (leave r b below (.error e))
  | .answer outcome, [] => some (r, ⟨[], .ended (.loaded outcome)⟩)
  | .answer (.ok m), b :: below => some (r, ⟨b.receive m :: below, .run⟩)
  | .answer (.error e), b :: below =>
    some (leave r b below (.error (e.inUnit b.unit.text)))
  | .unwind, [] => some (r, ⟨[], .ended (.broken none)⟩)
  | .unwind, b :: below =>
    match b.unit with
    | .module id => some (r.publish id (.error (abandoned id)), ⟨below, .unwind⟩)
    | .script _ => some (r, ⟨[], .ended (.broken (some b.scope))⟩)
  | .enter, [] | .run, [] | .ended _, _ => none

end ModuleSystem
