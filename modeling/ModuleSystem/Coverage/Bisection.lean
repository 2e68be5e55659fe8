namespace ModuleSystem.Coverage

variable {α : Type}

/-- Halves the part of a list in which an element can be. `side` says where an element lies, seen
from the one that is looked for. Each round leaves less of a list that is no shorter than two. -/
def narrow (side : α → Ordering) : Nat → List α → List α
  | 0, xs => xs
  | rounds + 1, xs =>
    if xs.length ≤ 1 then xs
    else
      let half := xs.length / 2
      if (xs[half]?.map side) = some .gt then narrow side rounds (xs.take (xs.length - half))
      else narrow side rounds (xs.drop half)

/-- The element on no side of the one that is looked for. -/
def bisect (side : α → Ordering) (xs : List α) : Option α :=
  (narrow side xs.length xs).head?.filter (side · == .eq)

end ModuleSystem.Coverage
