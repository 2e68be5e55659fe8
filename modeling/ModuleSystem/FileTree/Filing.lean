import ModuleSystem.FileTree.Edit

/-! Computations on a file tree. What one has done before it fails stays done. -/

namespace ModuleSystem

abbrev Filing (ε α : Type) := ExceptT ε (StateM FileTree) α

namespace Filing

variable {ε α : Type}

/-- Reads from the tree; `fault` says what a refusal means. -/
def look (fault : IoError → ε) (read : FileTree → Except IoError α) : Filing ε α := do
  match read (← get) with
  | .ok a => return a
  | .error e => throw (fault e)

/-- Changes the tree; a refused change leaves it as it is. -/
def edit (fault : IoError → ε) (change : FileTree → Except IoError FileTree) : Filing ε Unit := do
  match change (← get) with
  | .ok tree => set tree
  | .error e => throw (fault e)

end Filing
end ModuleSystem
