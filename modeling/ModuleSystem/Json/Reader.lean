import ModuleSystem.Json.Basic
import ModuleSystem.Json.Literal

/-! Reading interchange values: a whole document, or a stream of values that follow one another. -/

namespace ModuleSystem.Json

/-- Arrays and objects nest at most one level less than this. -/
def depthLimit : Nat := 128

/-- Whether another item follows, as seen from the place after the last one. -/
def moreItems (first : Bool) : Reader Bool := fun c =>
  let c := c.skipSpaces
  match c.rest with
  | [] => .error (c.faultAhead .eofList)
  | b :: _ =>
    if b = ']'.toUInt8 then .ok (false, c)
    else if first then .ok (true, c)
    else if b = ','.toUInt8 then
      let c := c.advance.skipSpaces
      match c.rest with
      | [] => .error (c.faultAhead .eofValue)
      | b :: _ =>
        if b = ']'.toUInt8 then .error (c.faultAhead .trailingComma) else .ok (true, c)
    else .error (c.faultAhead .expectedListEnd)

/-- The name of the next field, if one follows. -/
def nextName (first : Bool) : Reader (Option String) := fun c =>
  let name (c : Cursor) : Except ReadError (Option String × Cursor) := do
    let (name, c) ← stringTail c.advance
    return (some name, c)
  let c := c.skipSpaces
  match c.rest with
  | [] => .error (c.faultAhead .eofObject)
  | b :: _ =>
    if b = '\x7d'.toUInt8 then .ok (none, c)
    else if first then
      if b = '\x22'.toUInt8 then name c else .error (c.faultAhead .keyNotString)
    else if b = ','.toUInt8 then
      let c := c.advance.skipSpaces
      match c.rest with
      | [] => .error (c.faultAhead .eofValue)
      | b :: _ =>
        if b = '\x22'.toUInt8 then name c
        else if b = '\x7d'.toUInt8 then .error (c.faultAhead .trailingComma)
        else .error (c.faultAhead .keyNotString)
    else .error (c.faultAhead .expectedObjectEnd)

def colon (c : Cursor) : Except ReadError Cursor :=
  let c := c.skipSpaces
  match c.rest with
  | [] => .error (c.faultAhead .eofObject)
  | b :: _ => if b = ':'.toUInt8 then .ok c.advance else .error (c.faultAhead .expectedColon)

def Number.toJson : Number → Json
  | .int n => .int n
  | .float x => .float x

mutual
/-- Reads one value. The fuel bounds the number of calls; each call inside another has at least one
byte less before it. The second argument is the number of levels still allowed. -/
def value : Nat → Nat → Reader Json
  | 0, _, c => .error (c.faultAhead .eofValue)
  | fuel + 1, depth, c =>
    let c := c.skipSpaces
    match c.rest with
    | [] => .error (c.faultAhead .eofValue)
    | b :: rest =>
      let after := c.step b rest
      if b = 'n'.toUInt8 then do
        return (.null, ← wordTail ['u', 'l', 'l'] after)
      else if b = 't'.toUInt8 then do
        return (.bool true, ← wordTail ['r', 'u', 'e'] after)
      else if b = 'f'.toUInt8 then do
        return (.bool false, ← wordTail ['a', 'l', 's', 'e'] after)
      else if b = '-'.toUInt8 then do
        let (n, c) ← number true after
        return (n.toJson, c)
      else if Cursor.isDigit b then do
        let (n, c) ← number false c
        return (n.toJson, c)
      else if b = '\x22'.toUInt8 then do
        let (s, c) ← stringTail after
        return (.string s, c)
      else if b = '['.toUInt8 then
        if depth ≤ 1 then .error (c.faultAhead .tooDeep)
        else do
          let (read, c) ← items fuel (depth - 1) true [] after
          return (.array read.reverse, c)
      else if b = '\x7b'.toUInt8 then
        if depth ≤ 1 then .error (c.faultAhead .tooDeep)
        else do
          let (read, c) ← members fuel (depth - 1) true [] after
          return (.object read, c)
      else .error (c.faultAhead .expectedValue)

/-- Reads items up to the closing bracket, last one first. -/
def items : Nat → Nat → Bool → List Json → Reader (List Json)
  | 0, _, _, _, c => .error (c.faultAhead .eofList)
  | fuel + 1, depth, first, read, c => do
    let (more, c) ← moreItems first c
    if more then
      let (item, c) ← value fuel depth c
      items fuel depth false (item :: read) c
    else return (read, c.advance)

/-- Reads fields up to the closing brace. A name that is given twice keeps its last value. -/
def members : Nat → Nat → Bool → Fields Json → Reader (Fields Json)
  | 0, _, _, _, c => .error (c.faultAhead .eofObject)
  | fuel + 1, depth, first, read, c => do
    let (name, c) ← nextName first c
    match name with
    | some name =>
      let c ← colon c
      let (item, c) ← value fuel depth c
      members fuel depth false (read.insert name item) c
    | none => return (read, c.advance)
end

/-- More calls than any input of this many bytes takes. -/
def fuelFor (c : Cursor) : Nat := 2 * c.rest.length + 2

def valueAt : Reader Json := fun c => value (fuelFor c) depthLimit c

/-- Nothing but white space may follow a document. -/
def endOfInput (c : Cursor) : Except ReadError Unit :=
  let c := c.skipSpaces
  match c.rest with
  | [] => .ok ()
  | _ :: _ => .error (c.faultAhead .trailingCharacters)

def ofBytes (bytes : List UInt8) : Except ReadError Json := do
  let (j, c) ← valueAt (.ofBytes bytes)
  endOfInput c
  return j

def ofText (text : String) : Except ReadError Json := ofBytes (Utf8.encode text)

/-- Line and character column, both counted from one. -/
structure Position where
  line : Nat
  column : Nat
  deriving DecidableEq, Repr

def Cursor.position (c : Cursor) : Position := ⟨c.line, c.chars + 1⟩

/-- What may follow a number or a word in a stream. -/
def isDelimiter (b : UInt8) : Bool :=
  Cursor.isSpace b || b = '\x22'.toUInt8 || b = '['.toUInt8 || b = ']'.toUInt8
    || b = '\x7b'.toUInt8 || b = '\x7d'.toUInt8 || b = ','.toUInt8 || b = ':'.toUInt8

/-- Strings, arrays and objects end by themselves; numbers and words need a delimiter. -/
def closed (start after : Cursor) : Except ReadError Unit :=
  if start.peeks '\x22' || start.peeks '[' || start.peeks '\x7b' then .ok ()
  else match after.rest with
    | [] => .ok ()
    | b :: _ => if isDelimiter b then .ok () else .error (after.faultAhead .trailingCharacters)

/-- Reads values up to the end of the input, each with the place where it begins. -/
def streamFrom : Nat → Cursor → Except ReadError (List (Position × Json))
  | 0, _ => .ok []
  | fuel + 1, c => do
    let start := c.skipSpaces
    match start.rest with
    | [] => return []
    | _ :: _ =>
      let (j, after) ← valueAt start
      closed start after
      let rest ← streamFrom fuel after
      return (start.position, j) :: rest

def stream (text : String) : Except ReadError (List (Position × Json)) :=
  let c := Cursor.ofBytes (Utf8.encode text)
  streamFrom (c.rest.length + 1) c

end ModuleSystem.Json
