import ModuleSystem.Json.Ignored
import ModuleSystem.Json.Printer
import ModuleSystem.Text.Quoted

/-! Reading documents of a fixed shape while the text goes by. A record is written as an object, in
any order of its fields, or as an array in order of declaration. A failure that concerns a record or
a list as a whole is reported where the record or list ends, as far as its end can be found. -/

namespace ModuleSystem.Json

/-- A failure has its place, or is still to be given one by the list or record around it. -/
inductive Failure where
  | placed (e : ReadError)
  | unplaced (reason : String) (after : Cursor)

/-- The text of a failure of a whole document. -/
def Failure.message : Failure → String
  | .placed e => e.message
  | .unplaced reason _ => reason

abbrev Decoder (α : Type) := Cursor → Except Failure (α × Cursor)

def placed {α : Type} : Except ReadError α → Except Failure α
  | .ok a => .ok a
  | .error e => .error (.placed e)

def failAt {α : Type} (reason : String) (c : Cursor) : Except Failure α :=
  .error (.placed ⟨reason, c.line, c.column⟩)

/-- Gives a failure the place that `close` finds from where it arose. -/
def placedBy {α : Type} (close : Cursor → Cursor) : Except Failure α → Except Failure α
  | .error (.unplaced reason c) => failAt reason (close c)
  | result => result

/-- The end of a list, if it comes next; else past a comma, if one comes next. -/
def pastList (c : Cursor) : Cursor :=
  let c := c.skipSpaces
  if c.peeks ']' then c.advance else if c.peeks ',' then c.advance.skipSpaces else c

def pastObject (c : Cursor) : Cursor :=
  let c := c.skipSpaces
  if c.peeks '\x7d' then c.advance else c

def floatShown (x : Float) : String := String.ofList (floatText x)

/-- Refuses a value of another type than expected. Scalars count as read, lists and objects do
not. -/
def mismatch {α : Type} (expected : String) (c : Cursor) : Except Failure α :=
  let refuse (found : String) (c : Cursor) : Except Failure α :=
    failAt s!"invalid type: {found}, expected {expected}" c
  let number (negative : Bool) (c : Cursor) : Except Failure α := do
    match ← placed (number negative c) with
    | (.int n, c) => refuse s!"integer `{n}`" c
    | (.float x, c) => refuse s!"floating point `{floatShown x}`" c
  match c.peek? with
  | none => .error (.placed (c.faultAhead .expectedValue))
  | some b =>
    if b = 'n'.toUInt8 then do
      refuse "null" (← placed (wordTail ['u', 'l', 'l'] c.advance))
    else if b = 't'.toUInt8 then do
      refuse "boolean `true`" (← placed (wordTail ['r', 'u', 'e'] c.advance))
    else if b = 'f'.toUInt8 then do
      refuse "boolean `false`" (← placed (wordTail ['a', 'l', 's', 'e'] c.advance))
    else if b = '-'.toUInt8 then number true c.advance
    else if Cursor.isDigit b then number false c
    else if b = '\x22'.toUInt8 then do
      let (s, c) ← placed (stringTail c.advance)
      refuse s!"string {Text.quoted s}" c
    else if b = '['.toUInt8 then refuse "sequence" c
    else if b = '\x7b'.toUInt8 then refuse "map" c
    else .error (.placed (c.faultAhead .expectedValue))

/-- Goes to the next value, which must be there. -/
def atValue {α : Type} (decode : UInt8 → Decoder α) : Decoder α := fun c =>
  let c := c.skipSpaces
  match c.peek? with
  | none => .error (.placed (c.faultAhead .eofValue))
  | some b => decode b c

/-- A whole number below a bound. -/
def natural (bound : Nat) (expected : String) : Decoder Nat := atValue fun b c =>
  let checked : Number × Cursor → Except Failure (Nat × Cursor)
    | (.int n, c) =>
      if 0 ≤ n ∧ n < bound then .ok (n.toNat, c)
      else failAt s!"invalid value: integer `{n}`, expected {expected}" c
    | (.float x, c) =>
      failAt s!"invalid type: floating point `{floatShown x}`, expected {expected}" c
  if b = '-'.toUInt8 then do checked (← placed (number true c.advance))
  else if Cursor.isDigit b then do checked (← placed (number false c))
  else mismatch expected c

def nat32 : Decoder Nat := natural UInt32.size "u32"

def nat64 : Decoder Nat := natural UInt64.size "u64"

def text : Decoder String := atValue fun b c =>
  if b = '\x22'.toUInt8 then placed (stringTail c.advance) else mismatch "a string" c

/-- A text that has to satisfy a rule of its own. -/
def checkedText {α : Type} (check : String → Except String α) : Decoder α := fun c => do
  let (s, c) ← text c
  match check s with
  | .ok a => return (a, c)
  | .error reason => .error (.unplaced reason c)

/-! ### Lists -/

def elements {α : Type} (element : Decoder α) : Nat → Bool → List α → Decoder (List α)
  | 0, _, _, c => .error (.placed (c.faultAhead .eofList))
  | fuel + 1, first, read, c => do
    let (more, c) ← placed (moreItems first c)
    if more then
      let (a, c) ← element c
      elements element fuel false (a :: read) c
    else return (read.reverse, c.advance)

def sequence {α : Type} (element : Decoder α) : Decoder (List α) := atValue fun b c =>
  if b = '['.toUInt8 then placedBy pastList (elements element (fuelFor c) true [] c.advance)
  else mismatch "a sequence" c

/-- A list of names, as a message offers them. -/
def offered (names : List String) : String :=
  match names.map (fun name => "`" ++ name ++ "`") with
  | [a, b] => s!"{a} or {b}"
  | [a] => a
  | shown => "one of " ++ String.intercalate ", " shown

def choiceName {α : Type} (choices : List (String × α)) : Decoder α := atValue fun b c => do
  if b = '\x22'.toUInt8 then
    let (name, c) ← placed (stringTail c.advance)
    match choices.lookup name with
    | some a => return (a, c)
    | none =>
      failAt s!"unknown variant `{name}`, expected {offered (choices.map (·.1))}" c
  else mismatch "variant identifier" c

/-- One of several names, as a string or as the only field of an object, bound to null. -/
def choice {α : Type} (choices : List (String × α)) : Decoder α := atValue fun b c => do
  if b = '\x22'.toUInt8 then choiceName choices c
  else if b = '\x7b'.toUInt8 then
    let (a, c) ← choiceName choices c.advance
    let c ← placed (colon c)
    let ((), c) ← atValue (fun b c => do
      if b = 'n'.toUInt8 then return ((), ← placed (wordTail ['u', 'l', 'l'] c.advance))
      else mismatch "unit" c) c
    let c := c.skipSpaces
    match c.peek? with
    | none => .error (.placed (c.faultAfter .eofObject))
    | some b =>
      if b = '\x7d'.toUInt8 then return (a, c.advance)
      else .error (.placed (c.faultAfter .expectedValue))
  else .error (.placed (c.faultAhead .expectedValue))

/-! ### Records -/

/-- One field of a record: whether it has been read, and how to read it into what is known of the
record so far. -/
structure Slot (σ : Type) where
  name : String
  filled : σ → Bool
  read : σ → Decoder σ

/-- The shape of a record. A strict one refuses unknown fields, a lenient array form may be too
short; `finish` names the first field that is missing. -/
structure Shape (σ α : Type) where
  title : String
  slots : List (Slot σ)
  blank : σ
  strict : Bool
  shortArray : Bool
  finish : σ → Except String α

namespace Shape

variable {σ α : Type}

/-- Reads the array form, one item for each field. -/
def positional (shape : Shape σ α) : List (Slot σ) → Nat → σ → Decoder σ
  | [], _, s, c => .ok (s, c)
  | slot :: rest, index, s, c => do
    let (more, c) ← placed (moreItems (index == 0) c)
    if more then
      let (s, c) ← slot.read s c
      positional shape rest (index + 1) s c
    else if shape.shortArray then return (s, c)
    else .error (.unplaced (s!"invalid length {index}, expected {shape.title} with "
      ++ s!"{shape.slots.length} elements") c)

/-- The end of an array form that has all its items. -/
def positionalEnd (c : Cursor) : Except ReadError Cursor :=
  let c := c.skipSpaces
  match c.peek? with
  | none => .error (c.faultAhead .eofList)
  | some b =>
    if b = ']'.toUInt8 then .ok c.advance
    else if b = ','.toUInt8 then
      let c := c.advance.skipSpaces
      .error (c.faultAhead (if c.peeks ']' then .trailingComma else .trailingCharacters))
    else .error (c.faultAhead .trailingCharacters)

/-- Reads the object form up to its closing brace. -/
def named (shape : Shape σ α) : Nat → Bool → σ → Decoder σ
  | 0, _, _, c => .error (.placed (c.faultAhead .eofObject))
  | fuel + 1, first, s, c => do
    let (name, c) ← placed (nextName first c)
    match name with
    | none => return (s, c)
    | some name =>
      match shape.slots.find? (·.name == name) with
      | some slot =>
        if slot.filled s then .error (.unplaced s!"duplicate field `{name}`" c)
        else
          let c ← placed (colon c)
          let (s, c) ← slot.read s c
          named shape fuel false s c
      | none =>
        if shape.strict then
          .error (.unplaced
            s!"unknown field `{name}`, expected {offered (shape.slots.map (·.name))}" c)
        else
          let c ← placed (colon c)
          let c ← placed (ignoredValue c)
          named shape fuel false s c

def finished (shape : Shape σ α) (s : σ) (c : Cursor) : Except Failure (α × Cursor) :=
  match shape.finish s with
  | .ok a => .ok (a, c)
  | .error reason => .error (.unplaced reason c)

def decode (shape : Shape σ α) : Decoder α := atValue fun b c =>
  if b = '['.toUInt8 then do
    let (a, c) ← placedBy pastList (do
      let (s, c) ← positional shape shape.slots 0 shape.blank c.advance
      shape.finished s c)
    return (a, ← placed (positionalEnd c))
  else if b = '\x7b'.toUInt8 then do
    let (a, c) ← placedBy pastObject (do
      let (s, c) ← shape.named (fuelFor c) true shape.blank c.advance
      shape.finished s c)
    return (a, c.advance)
  else mismatch shape.title c

end Shape

/-- The value of a field, or the complaint that it is missing. -/
def required {α : Type} (name : String) : Option α → Except String α
  | some a => .ok a
  | none => .error s!"missing field `{name}`"

/-- Decodes a whole document. -/
def decodeDocument {α : Type} (decode : Decoder α) (bytes : List UInt8) : Except Failure α := do
  let (a, c) ← decode (.ofBytes bytes)
  placed (endOfInput c)
  return a

end ModuleSystem.Json
