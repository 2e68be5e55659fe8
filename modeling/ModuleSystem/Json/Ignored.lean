import ModuleSystem.Json.Reader

/-! Stepping over a value that nobody asked for. Brackets are matched on a stack instead of by
nested calls, so there is no limit to their depth. Numbers are not evaluated and strings not
decoded. -/

namespace ModuleSystem.Json

/-- Steps over the digits of an ignored number after its exponent letter. -/
def ignoredExponent (c : Cursor) : Except ReadError Cursor :=
  let c := if c.peeks '+' || c.peeks '-' then c.advance else c
  match c.peek? with
  | some b =>
    if Cursor.isDigit b then .ok c.skipDigits else .error (c.advance.faultAfter .invalidNumber)
  | none => .error (c.faultAfter .invalidNumber)

def ignoredNumberTail (c : Cursor) : Except ReadError Cursor :=
  let exponent (c : Cursor) :=
    if c.peeks 'e' || c.peeks 'E' then ignoredExponent c.advance else .ok c
  if c.peeks '.' then
    let c := c.advance
    if c.peek?.any Cursor.isDigit then exponent c.skipDigits
    else .error (c.faultAhead .invalidNumber)
  else exponent c

/-- Steps over a number after its sign. -/
def ignoredNumber (c : Cursor) : Except ReadError Cursor :=
  if c.peeks '0' then
    let c := c.advance
    if c.peek?.any Cursor.isDigit then .error (c.faultAhead .invalidNumber)
    else ignoredNumberTail c
  else if c.peek?.any Cursor.isDigit then ignoredNumberTail c.skipDigits
  else .error (c.advance.faultAfter .invalidNumber)

/-- What one byte of an ignored string does. Surrogates need not be paired here. -/
def ignoredStringStep (b : UInt8) : StringState → StringStep
  | .hex digits =>
    if digits.length < 3 then .next (.hex (b :: digits)) []
    else if (hexValue? (b :: digits)).isSome then .next .plain []
    else .fault .invalidEscape
  | state => stringStep b state

/-- Steps over a string after its opening quote. A control character does not count as read. -/
def ignoredString : List UInt8 → StringState → Cursor → Except ReadError Cursor
  | [], _, c => .error (c.faultAfter .eofString)
  | b :: rest, state, c =>
    match ignoredStringStep b state with
    | .finished => .ok (c.step b rest)
    | .next state _ => ignoredString rest state (c.step b rest)
    | .fault .controlCharacter => .error (c.faultAfter .controlCharacter)
    | .fault f => .error ((c.step b rest).faultAfter f)

/-- The kind of bracket that is open. -/
inductive Bracket where
  | array
  | object
  deriving DecidableEq

def Bracket.close : Bracket → Char
  | .array => ']'
  | .object => '\x7d'

/-- Steps over the name of a field and its colon; nothing in an array. -/
def Bracket.ignoredName (bracket : Bracket) (c : Cursor) : Except ReadError Cursor :=
  match bracket with
  | .array => .ok c
  | .object => do
    let c := c.skipSpaces
    match c.peek? with
    | none => .error (c.faultAhead .eofObject)
    | some b =>
      if b = '\x22'.toUInt8 then
        let c ← ignoredString c.advance.rest .plain c.advance
        colon c
      else .error (c.faultAhead .keyNotString)

mutual
def ignoredItem : Nat → List Bracket → Cursor → Except ReadError Cursor
  | 0, _, c => .error (c.faultAhead .eofValue)
  | fuel + 1, outer, c =>
    let c := c.skipSpaces
    match c.peek? with
    | none => .error (c.faultAhead .eofValue)
    | some b =>
      if b = 'n'.toUInt8 then do
        ignoredRest fuel true outer (← wordTail ['u', 'l', 'l'] c.advance)
      else if b = 't'.toUInt8 then do
        ignoredRest fuel true outer (← wordTail ['r', 'u', 'e'] c.advance)
      else if b = 'f'.toUInt8 then do
        ignoredRest fuel true outer (← wordTail ['a', 'l', 's', 'e'] c.advance)
      else if b = '-'.toUInt8 then do
        ignoredRest fuel true outer (← ignoredNumber c.advance)
      else if Cursor.isDigit b then do
        ignoredRest fuel true outer (← ignoredNumber c)
      else if b = '\x22'.toUInt8 then do
        ignoredRest fuel true outer (← ignoredString c.advance.rest .plain c.advance)
      else if b = '['.toUInt8 then ignoredRest fuel false (.array :: outer) c.advance
      else if b = '\x7b'.toUInt8 then ignoredRest fuel false (.object :: outer) c.advance
      else .error (c.faultAhead .expectedValue)

/-- Goes on inside the innermost open bracket. A comma is welcome only after an item. -/
def ignoredRest : Nat → Bool → List Bracket → Cursor → Except ReadError Cursor
  | _, _, [], c => .ok c
  | 0, _, _ :: _, c => .error (c.faultAhead .eofValue)
  | fuel + 1, afterItem, bracket :: outer, c =>
    let c := c.skipSpaces
    match c.peek? with
    | none => .error (c.faultAhead (if bracket = .array then .eofList else .eofObject))
    | some b =>
      if b = ','.toUInt8 && afterItem then do
        ignoredItem fuel (bracket :: outer) (← bracket.ignoredName c.advance)
      else if b = bracket.close.toUInt8 then ignoredRest fuel true outer c.advance
      else if afterItem then
        .error (c.faultAhead (if bracket = .array then .expectedListEnd else .expectedObjectEnd))
      else do
        ignoredItem fuel (bracket :: outer) (← bracket.ignoredName c)
end

/-- Steps over one value. -/
def ignoredValue (c : Cursor) : Except ReadError Cursor := ignoredItem (fuelFor c) [] c

end ModuleSystem.Json
