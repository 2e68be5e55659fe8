import ModuleSystem.Loading.Body
import ModuleSystem.Loading.Registry

/-! Threads that load. A thread is a stack of bodies that have begun, the innermost one first, and
what it is to do next. A script can only be at the bottom. -/

namespace ModuleSystem

/-- How a thread ended. A script leaves its namespace behind even if it fails. -/
inductive Ending where
  | loaded (outcome : Outcome)
  | ran (scope : Namespace) (result : Except LoadError (List Value))
  /-- Broken off; a script's namespace is as it was at that moment. -/
  | broken (scope : Option Namespace)

/-- What a thread does next. -/
inductive Control where
  /-- Ask for a module. -/
  | request (id : ModuleId)
  /-- Look at a module that has been claimed before. -/
  | look (id : ModuleId)
  /-- Wait for a module that was still loading, unless that would never end. -/
  | park (id : ModuleId)
  | waiting (id : ModuleId)
  /-- Find and compile a module that this thread has claimed. -/
  | build (id : ModuleId)
  /-- Begin the innermost body. -/
  | enter
  /-- Run the next form of the innermost body. -/
  | run
  /-- Give an outcome to whoever asked for it. -/
  | answer (outcome : Outcome)
  /-- Break off the innermost body, and then those that wait for it. -/
  | unwind
  | ended (ending : Ending)

structure Thread where
  stack : List Body
  control : Control

namespace Thread

/-- A thread that loads one module. -/
def load (id : ModuleId) : Thread := ⟨[], .request id⟩

/-- A thread that runs a body. -/
def body (b : Body) : Thread := ⟨[b], .enter⟩

/-- The modules whose bodies are running, outermost first. -/
def modules (t : Thread) : List ModuleId := t.stack.reverse.filterMap (·.unit.id?)

/-- The running modules from one of them on; none if that one is not running here. -/
def modulesFrom (t : Thread) (id : ModuleId) : List ModuleId := t.modules.dropWhile (· ≠ id)

def ending? (t : Thread) : Option Ending :=
  match t.control with
  | .ended e => some e
  | _ => none

end Thread
end ModuleSystem
