import ModuleSystem.Diagnostic
import ModuleSystem.Json.Printer
import ModuleSystem.Json.Reader

/-! Runtime values. Integers are 64-bit words, structs are field maps. Two structs may be one and
the same map, as an update that changes nothing gives back its argument; a struct that was made by
an update can carry a mark for this, and structs of one mark are equal without a look at their
fields. That matters only below a NaN, which differs from itself. -/

namespace ModuleSystem

inductive Value where
  | null
  | bool (b : Bool)
  | int (n : Int64)
  | float (x : Float)
  | string (s : String)
  | list (items : List Value)
  | struct (mark : Option Nat) (fields : List (String × Value))

namespace Value

instance : Inhabited Value := ⟨.null⟩

def emptyStruct : Value := .struct none []

def typeName : Value → String
  | .null => "null"
  | .bool _ => "bool"
  | .int _ => "int"
  | .float _ => "float"
  | .string _ => "string"
  | .list _ => "list"
  | .struct .. => "struct"

mutual
/-- Equality as programs see it: floats by their numbers, so a NaN equals nothing and the two zeros
are equal; lists item by item; structs by their mark, else field by field. -/
def beq : Value → Value → Bool
  | .null, .null => true
  | .bool a, .bool b => a == b
  | .int a, .int b => a == b
  | .float a, .float b => a == b
  | .string a, .string b => a == b
  | .list as, .list bs => beqList as bs
  | .struct m as, .struct n bs => (m.isSome && m == n) || beqFields as bs
  | _, _ => false

def beqList : List Value → List Value → Bool
  | [], [] => true
  | a :: as, b :: bs => beq a b && beqList as bs
  | _, _ => false

def beqFields : List (String × Value) → List (String × Value) → Bool
  | [], [] => true
  | (j, a) :: as, (k, b) :: bs => j == k && beq a b && beqFields as bs
  | _, _ => false
end

instance : BEq Value := ⟨beq⟩

/-- Integers outside the range of a signed word become floats. -/
def ofJsonInt (n : Int) : Value :=
  if Int64.minValue.toInt ≤ n ∧ n ≤ Int64.maxValue.toInt then .int (.ofInt n)
  else .float n.toNat.toUInt64.toFloat

mutual
def ofJson : Json → Value
  | .null => .null
  | .bool b => .bool b
  | .int n => ofJsonInt n
  | .float x => .float x
  | .string s => .string s
  | .array items => .list (ofJsonItems items)
  | .object fields => .struct none (ofJsonFields fields)

def ofJsonItems : List Json → List Value
  | [] => []
  | item :: rest => ofJson item :: ofJsonItems rest

def ofJsonFields : List (String × Json) → List (String × Value)
  | [] => []
  | (name, item) :: rest => (name, ofJson item) :: ofJsonFields rest
end

mutual
/-- Floats that are not finite become null. -/
def toJson : Value → Json
  | .null => .null
  | .bool b => .bool b
  | .int n => .int n.toInt
  | .float x => if x.isFinite then .float x else .null
  | .string s => .string s
  | .list items => .array (toJsonItems items)
  | .struct _ fields => .object (toJsonFields fields)

def toJsonItems : List Value → List Json
  | [] => []
  | item :: rest => toJson item :: toJsonItems rest

def toJsonFields : List (String × Value) → List (String × Json)
  | [] => []
  | (name, item) :: rest => (name, toJson item) :: toJsonFields rest
end

/-- The text of a value: compact, with the fields of a struct in order of name. -/
def text (v : Value) : String := v.toJson.compact

instance : ToString Value := ⟨text⟩

inductive FieldError where
  | notStruct (operation found : String)
  | nullName
  | badName (found : String)
  deriving DecidableEq, Repr

def FieldError.reason : FieldError → String
  | .notStruct operation found => s!"`{operation}` expects struct, got {found}"
  | .nullName => "struct field names cannot be null"
  | .badName found => s!"struct field names must be strings, got {found}"

def FieldError.message (e : FieldError) : String :=
  ErrorCode.invalidArgument.format [e.reason]

def fieldName : Value → Except FieldError String
  | .string name => .ok name
  | .null => .error .nullName
  | other => .error (.badName other.typeName)

/-- Whether a name is bound already to an equal value. Binding it again changes nothing then, not
even the sign of a zero. -/
def isBound (fields : Fields Value) (name : String) (value : Value) : Bool :=
  (fields.get? name).any (· == value)

def assign (fields : Fields Value) (name : String) (value : Value) : Fields Value :=
  if isBound fields name value then fields else fields.insert name value

def assignAll (fields : Fields Value) (entries : List (String × Value)) : Fields Value :=
  entries.foldl (fun fields entry => assign fields entry.1 entry.2) fields

/-- A struct with one more field, or another value in a field. If anything changes, the field map is
a new one and gets the mark given for it. -/
def structPut (target key value : Value) (fresh : Option Nat) : Except FieldError Value :=
  match target with
  | .struct mark fields => do
    let name ← fieldName key
    return .struct (if isBound fields name value then mark else fresh) (assign fields name value)
  | other => .error (.notStruct "struct_put" other.typeName)

/-- The value of a field; null when there is none. -/
def structGet (target key : Value) : Except FieldError Value :=
  match target with
  | .struct _ fields => do
    let name ← fieldName key
    return (Fields.get? fields name).getD .null
  | other => .error (.notStruct "struct_get" other.typeName)

end Value
end ModuleSystem
