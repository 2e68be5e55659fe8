import ModuleSystem.Diagnostic

/-! Module paths such as `/loam/list`: one or more segments, each preceded by a slash. A segment
starts with an ASCII letter or an underscore and goes on with ASCII letters, digits and
underscores. -/

namespace ModuleSystem

def isSegmentStart (c : Char) : Bool := c.isAlpha || c == '_'

def isSegmentChar (c : Char) : Bool := c.isAlphanum || c == '_'

def isSegment : List Char → Bool
  | [] => false
  | c :: rest => isSegmentStart c && rest.all isSegmentChar

/-- Why a text is not a module path. -/
inductive PathFault where
  | empty
  | relative
  | badName
  | noSlash
  | noSegments
  | emptySegment
  | badSegment
  deriving DecidableEq, Repr

def PathFault.message : PathFault → String
  | .empty => "the path is empty"
  | .relative => "relative paths must start with `/`"
  | .badName => "not a valid module name"
  | .noSlash => "the path must start with `/`"
  | .noSegments => "the path has no segments"
  | .emptySegment => "the path has an empty segment"
  | .badSegment => "segments must be letters, digits or `_`, not starting with a digit"

/-- The first segment that is not one decides which fault is reported. -/
def segmentFault? : List (List Char) → Option PathFault
  | [] => none
  | [] :: _ => some .emptySegment
  | segment :: rest => if isSegment segment then segmentFault? rest else some .badSegment

def absoluteFault? : List Char → Option PathFault
  | '/' :: [] => some .noSegments
  | '/' :: rest => segmentFault? (rest.splitOn '/')
  | _ => some .noSlash

structure ModuleId where
  text : String
  absolute : absoluteFault? text.toList = none
  deriving DecidableEq

/-- A rejected path: the text as given and what is wrong with it. -/
structure PathError where
  text : String
  fault : PathFault
  deriving DecidableEq, Repr

def PathError.message (e : PathError) : String :=
  ErrorCode.invalidModulePath.format [e.text, e.fault.message]

namespace ModuleId

instance : ToString ModuleId := ⟨ModuleId.text⟩

instance : Repr ModuleId := ⟨fun id _ => id.text⟩

/-- Ids are ordered as texts, byte by byte. -/
instance : LT ModuleId := ⟨fun a b => a.text < b.text⟩

instance (a b : ModuleId) : Decidable (a < b) := inferInstanceAs (Decidable (a.text < b.text))

/-- Reads a path that must already start with a slash. -/
def parseAbsolute (text : String) : Except PathError ModuleId :=
  match h : absoluteFault? text.toList with
  | none => .ok ⟨text, h⟩
  | some fault => .error ⟨text, fault⟩

/-- Reads a path. A single name without any slash, such as `greet`, means `/greet`. -/
def parse (text : String) : Except PathError ModuleId :=
  match text.toList with
  | [] => .error ⟨text, .empty⟩
  | '/' :: _ => parseAbsolute text
  | chars =>
    if chars.contains '/' then .error ⟨text, .relative⟩
    else match parseAbsolute ("/" ++ text) with
      | .ok id => .ok id
      | .error _ => .error ⟨text, .badName⟩

def ofSegments (segments : List String) : Except PathError ModuleId :=
  parseAbsolute (String.join (segments.map ("/" ++ ·)))

def segments (id : ModuleId) : List String :=
  ((id.text.toList.drop 1).splitOn '/').map String.ofList

def name (id : ModuleId) : String :=
  String.ofList (id.text.toList.reverse.takeWhile (· != '/')).reverse

/-- The text before the last slash. -/
def parentText (id : ModuleId) : String :=
  String.ofList ((id.text.toList.reverse.dropWhile (· != '/')).drop 1).reverse

def parent? (id : ModuleId) : Option ModuleId :=
  (parseAbsolute id.parentText).toOption

/-- Holds when `id` is `base` or lies below it. -/
def isWithin (id base : ModuleId) : Bool :=
  base.text.toList.isPrefixOf id.text.toList &&
    match id.text.toList.drop base.text.length with
    | [] => true
    | c :: _ => c == '/'

end ModuleId

/-- Listings of ids are sorted; equal ids stay side by side. -/
def sortIds (ids : List ModuleId) : List ModuleId :=
  ids.mergeSort (fun a b => !decide (b < a))

/-- Adds an id in its place, unless it is there. -/
def insertId : List ModuleId → ModuleId → List ModuleId
  | [], id => [id]
  | x :: rest, id =>
    if id < x then id :: x :: rest else if x = id then x :: rest else x :: insertId rest id

/-- The ids of a list in order, each of them once. -/
def idSet (ids : List ModuleId) : List ModuleId := ids.foldl insertId []

end ModuleSystem
