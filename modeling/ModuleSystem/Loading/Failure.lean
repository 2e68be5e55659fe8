import ModuleSystem.Coverage.Span
import ModuleSystem.Repository.Basic

/-! Why a module or a script did not load. A failed module keeps its failure, and everyone who asks
for the module gets the same one. -/

namespace ModuleSystem

open Coverage (Span)

inductive LoadError where
  | notFound (path : ModuleId) (searched : String)
  | invalidPath (e : PathError)
  | repository (e : RepositoryError)
  | compile (unit : String) (span : Option Span) (message : String)
  | execution (unit : String) (span : Option Span) (message : String)
  /-- The chain begins and ends with the module that closes the cycle. -/
  | cycle (chain : List ModuleId)
  | timedOut (path : ModuleId) (milliseconds : Nat)
  | alreadyRegistered (path : ModuleId)
  /-- `unit` required a module that failed. -/
  | dependency (unit : String) (cause : LoadError)
  deriving DecidableEq

namespace LoadError

/-- The failure at the bottom of a chain of dependency failures. -/
def rootCause : LoadError → LoadError
  | .dependency _ cause => cause.rootCause
  | e => e

def isCycle (e : LoadError) : Bool :=
  match e.rootCause with
  | .cycle _ => true
  | _ => false

/-- A dependency failure is reported under the code of its cause. -/
def code : LoadError → ErrorCode
  | .notFound .. => .moduleNotFound
  | .invalidPath _ => .invalidModulePath
  | .repository e => e.code
  | .compile .. => .compileFailed
  | .execution .. => .executionFailed
  | .cycle _ => .moduleCycle
  | .timedOut .. => .loadTimedOut
  | .alreadyRegistered _ => .moduleAlreadyRegistered
  | .dependency _ cause => cause.code

def place : Option Span → String
  | some span => span.text
  | none => "an unknown position"

def chainText (chain : List ModuleId) : String :=
  String.intercalate " -> " (chain.map ModuleId.text)

def message : LoadError → String
  | .notFound path searched => ErrorCode.moduleNotFound.format [path.text, searched]
  | .invalidPath e => e.message
  | .repository e => e.message
  | .compile unit span text => ErrorCode.compileFailed.format [unit, place span, text]
  | .execution unit span text => ErrorCode.executionFailed.format [unit, place span, text]
  | .cycle chain => ErrorCode.moduleCycle.format [chainText chain]
  | .timedOut path ms => ErrorCode.loadTimedOut.format [path.text, toString ms]
  | .alreadyRegistered path => ErrorCode.moduleAlreadyRegistered.format [path.text]
  | .dependency unit cause =>
    "`" ++ unit ++ "` could not load a required module: " ++ cause.message

def render (e : LoadError) : String := e.code.render e.message

/-- What a failed module means for a unit that requires it. A cycle names all its modules already
and stays as it is. -/
def inUnit (unit : String) (cause : LoadError) : LoadError :=
  if cause.isCycle then cause else .dependency unit cause

end LoadError

abbrev Outcome := Except LoadError ModuleInstance

end ModuleSystem
