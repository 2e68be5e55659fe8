/-! Field maps: lists of named entries in strictly increasing order of names. Names are compared by
code point, which is also the order of their bytes. -/

namespace ModuleSystem

abbrev Fields (α : Type) := List (String × α)

namespace Fields

variable {α β : Type}

def get? : Fields α → String → Option α
  | [], _ => none
  | (k, v) :: rest, name => if k = name then some v else get? rest name

def contains (fields : Fields α) (name : String) : Bool := (fields.get? name).isSome

/-- Binds a name, in its place. -/
def insert : Fields α → String → α → Fields α
  | [], name, value => [(name, value)]
  | (k, v) :: rest, name, value =>
    if name < k then (name, value) :: (k, v) :: rest
    else if k = name then (name, value) :: rest
    else (k, v) :: insert rest name value

def insertAll (fields : Fields α) (entries : List (String × α)) : Fields α :=
  entries.foldl (fun fields entry => fields.insert entry.1 entry.2) fields

/-- Of two entries for one name the later wins. -/
def ofList (entries : List (String × α)) : Fields α := insertAll [] entries

def names (fields : Fields α) : List String := fields.map (·.1)

/-- The fields whose names are listed. -/
def select (fields : Fields α) (names : List String) : Fields α :=
  fields.filter fun field => names.contains field.1

/-- What every field map keeps. -/
def Sorted (fields : Fields α) : Prop := (fields.map (·.1)).Pairwise (· < ·)

end Fields

/-- Names in order, each of them once. -/
def sortedNames (names : List String) : List String :=
  (Fields.ofList (names.map fun name => (name, ()))).names

end ModuleSystem
