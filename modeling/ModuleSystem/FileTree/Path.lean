/-! Paths as texts. Names are separated by slashes; a path that begins with a slash starts at the
top, any other one where the program works. -/

namespace ModuleSystem.Path

/-- The names on the way, without the empty ones. A slash at the end asks for a directory, as a
single dot does. -/
def components (path : String) : List String :=
  let names := ((path.toList.splitOn '/').map String.ofList).filter (! ·.isEmpty)
  if path.endsWith "/" then names ++ ["."] else names

def isAbsolute (path : String) : Bool := path.startsWith "/"

/-- The path of `name` as seen from `base`, with one slash between them. -/
def join (base name : String) : String :=
  if isAbsolute name || base.isEmpty then name
  else if base.endsWith "/" then base ++ name
  else base ++ "/" ++ name

/-- The last name of a path. A path that ends by going up has none. -/
def fileName? (path : String) : Option String :=
  match ((components path).filter (· ≠ ".")).getLast? with
  | some ".." => none
  | other => other

/-- The path without its last name. -/
def parent (path : String) : String :=
  String.ofList (((path.toList.reverse.dropWhile (· = '/')).dropWhile (· ≠ '/')).drop 1).reverse

/-- What follows the last dot of a file name, unless the dot comes first. -/
def extension? (path : String) : Option String := do
  let chars := (← fileName? path).toList
  let ext := chars.reverse.takeWhile (· ≠ '.')
  if ext.length + 1 < chars.length then some (String.ofList ext.reverse) else none

end ModuleSystem.Path
