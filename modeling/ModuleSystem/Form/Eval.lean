import ModuleSystem.Form.Basic

/-! Evaluation of expressions. Operands are evaluated from left to right and the first failure
decides. The updates of a running program mark no structs, so two structs that come from one and the
same update are compared by their fields here. That they are one could be seen only where a NaN is
inside: an update with such a struct would keep the equal one that is there, and with it the signs
of the zeros beside the NaN. -/

namespace ModuleSystem.Form

inductive EvalFault where
  | unbound (name : String)
  | overflow
  | notAddable (found : String)
  | field (e : Value.FieldError)
  deriving DecidableEq

def EvalFault.message : EvalFault → String
  | .unbound name => s!"`{name}` is not bound"
  | .overflow => "integer overflow in `+`"
  | .notAddable found => s!"`+` expects numbers or strings, got {found}"
  | .field e => e.message

/-- A sum in progress. It stays exact until the first float. -/
inductive Sum where
  | exact (n : Int64)
  | inexact (x : Float)

/-- The sum of two words, if it is a word. -/
def addExact (a b : Int64) : Option Int64 :=
  let sum := a.toInt + b.toInt
  if Int64.minValue.toInt ≤ sum ∧ sum ≤ Int64.maxValue.toInt then some (.ofInt sum) else none

def Sum.add : Sum → Value → Except EvalFault Sum
  | .exact a, .int b =>
    match addExact a b with
    | some sum => .ok (.exact sum)
    | none => .error .overflow
  | .exact a, .float y => .ok (.inexact (a.toFloat + y))
  | .inexact x, .int b => .ok (.inexact (x + b.toFloat))
  | .inexact x, .float y => .ok (.inexact (x + y))
  | _, other => .error (.notAddable other.typeName)

def Sum.value : Sum → Value
  | .exact n => .int n
  | .inexact x => .float x

/-- The texts of values that are all strings. -/
def strings? : List Value → Option (List String)
  | [] => some []
  | .string s :: rest => (strings? rest).map (s :: ·)
  | _ :: _ => none

/-- Strings are joined, numbers are added; the sum of nothing is zero. -/
def addAll (values : List Value) : Except EvalFault Value :=
  match values, strings? values with
  | _ :: _, some texts => .ok (.string (String.join texts))
  | _, _ => do
    let sum ← values.foldlM Sum.add (.exact 0)
    return sum.value

def fieldResult : Except Value.FieldError Value → Except EvalFault Value
  | .ok v => .ok v
  | .error e => .error (.field e)

mutual
def eval (bindings : Fields Value) : Expr → Except EvalFault Value
  | .literal v => .ok v
  | .ref name =>
    match bindings.get? name with
    | some v => .ok v
    | none => .error (.unbound name)
  | .list items => do return .list (← evalAll bindings items)
  | .add items => do addAll (← evalAll bindings items)
  | .structPut target key value => do
    let target ← eval bindings target
    let key ← eval bindings key
    let value ← eval bindings value
    fieldResult (target.structPut key value none)
  | .structGet target key => do
    let target ← eval bindings target
    let key ← eval bindings key
    fieldResult (target.structGet key)

def evalAll (bindings : Fields Value) : List Expr → Except EvalFault (List Value)
  | [] => .ok []
  | e :: rest => do
    let v ← eval bindings e
    return v :: (← evalAll bindings rest)
end

end ModuleSystem.Form
