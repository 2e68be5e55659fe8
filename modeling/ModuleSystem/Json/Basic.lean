import ModuleSystem.Fields

/-! Interchange values. Integers are those that a reader keeps exact: from `-2 ^ 63` up to
`2 ^ 64 - 1`. -/

namespace ModuleSystem

inductive Json where
  | null
  | bool (b : Bool)
  | int (n : Int)
  | float (x : Float)
  | string (s : String)
  | array (items : List Json)
  | object (fields : List (String × Json))

instance : Inhabited Json := ⟨.null⟩

end ModuleSystem
