import ModuleSystem.Json.Cursor
import ModuleSystem.Text.Utf8

/-! Reading strings, numbers and words. Strings are read by an automaton that sees one byte at a
time. Numbers keep as many digits as fit into 64 bits; the decimal exponent takes up the rest. -/

namespace ModuleSystem.Json

abbrev Reader (α : Type) := Cursor → Except ReadError (α × Cursor)

/-! ### Strings -/

def hexDigit? (b : UInt8) : Option Nat :=
  let n := b.toNat
  if 48 ≤ n ∧ n ≤ 57 then some (n - 48)
  else if 97 ≤ n ∧ n ≤ 102 then some (n - 87)
  else if 65 ≤ n ∧ n ≤ 70 then some (n - 55)
  else none

/-- The number that four hexadecimal digits write, given the last one first. -/
def hexValue? : List UInt8 → Option Nat
  | [] => some 0
  | b :: rest => do
    let high ← hexValue? rest
    let low ← hexDigit? b
    return high * 16 + low

/-- Where a string reader stands: in plain text, after a backslash, inside the digits of an escape,
or inside the second half of a surrogate pair. Digits are kept last one first. -/
inductive StringState where
  | plain
  | escape
  | hex (digits : List UInt8)
  | highSurrogate (unit : Nat)
  | highSurrogateEscape (unit : Nat)
  | lowHex (unit : Nat) (digits : List UInt8)

def shortEscape? (b : UInt8) : Option UInt8 :=
  if b = '\x22'.toUInt8 || b = '\x5c'.toUInt8 || b = '/'.toUInt8 then some b
  else if b = 'b'.toUInt8 then some 0x08
  else if b = 'f'.toUInt8 then some 0x0c
  else if b = 'n'.toUInt8 then some 0x0a
  else if b = 'r'.toUInt8 then some 0x0d
  else if b = 't'.toUInt8 then some 0x09
  else none

/-- What one byte does: it ends the string, or it leads to a state and adds bytes. -/
inductive StringStep where
  | finished
  | next (state : StringState) (added : List UInt8)
  | fault (f : Fault)

/-- Four digits name a character, or the first half of a pair. -/
def unitStep (unit : Nat) : StringStep :=
  if 0xdc00 ≤ unit ∧ unit ≤ 0xdfff then .fault .loneSurrogate
  else if 0xd800 ≤ unit ∧ unit ≤ 0xdbff then .next (.highSurrogate unit) []
  else .next .plain (Utf8.encodeChar (Char.ofNat unit))

def pairStep (high low : Nat) : StringStep :=
  if 0xdc00 ≤ low ∧ low ≤ 0xdfff then
    .next .plain
      (Utf8.encodeChar (Char.ofNat ((high - 0xd800) * 1024 + (low - 0xdc00) + 0x10000)))
  else .fault .loneSurrogate

def stringStep (b : UInt8) : StringState → StringStep
  | .plain =>
    if b = '\x22'.toUInt8 then .finished
    else if b = '\x5c'.toUInt8 then .next .escape []
    else if b < 0x20 then .fault .controlCharacter
    else .next .plain [b]
  | .escape =>
    if b = 'u'.toUInt8 then .next (.hex []) []
    else match shortEscape? b with
      | some byte => .next .plain [byte]
      | none => .fault .invalidEscape
  | .hex digits =>
    if digits.length < 3 then .next (.hex (b :: digits)) []
    else match hexValue? (b :: digits) with
      | some unit => unitStep unit
      | none => .fault .invalidEscape
  | .highSurrogate unit =>
    if b = '\x5c'.toUInt8 then .next (.highSurrogateEscape unit) []
    else .fault .unfinishedSurrogate
  | .highSurrogateEscape unit =>
    if b = 'u'.toUInt8 then .next (.lowHex unit []) [] else .fault .unfinishedSurrogate
  | .lowHex unit digits =>
    if digits.length < 3 then .next (.lowHex unit (b :: digits)) []
    else match hexValue? (b :: digits) with
      | some low => pairStep unit low
      | none => .fault .invalidEscape

/-- Reads on from a state up to the closing quote, which is not read. `bytes` is what follows the
cursor, and `read` holds the bytes of the string so far, last one first. A broken byte counts as
read. -/
def stringBytes : List UInt8 → StringState → List UInt8 → Reader (List UInt8)
  | [], _, _, c => .error (c.faultAfter .eofString)
  | b :: rest, state, read, c =>
    match stringStep b state with
    | .finished => .ok (read.reverse, c)
    | .next state added => stringBytes rest state (added.reverse ++ read) (c.step b rest)
    | .fault f => .error ((c.step b rest).faultAfter f)

/-- Reads a string after its opening quote. Bytes that are no text are noticed before the closing
quote is read. -/
def stringTail : Reader String := fun c =>
  match stringBytes c.rest .plain [] c with
  | .error e => .error e
  | .ok (bytes, c) =>
    match Utf8.decode bytes with
    | .ok text => .ok (text, c.advance)
    | .error _ => .error (c.faultAfter .invalidCodePoint)

/-- Reads the rest of a word. The first wrong byte counts as read. -/
def wordTail : List Char → Cursor → Except ReadError Cursor
  | [], c => .ok c
  | ch :: more, c =>
    match c.rest with
    | [] => .error (c.faultAfter .eofValue)
    | b :: rest =>
      if b = ch.toUInt8 then wordTail more (c.step b rest)
      else .error ((c.step b rest).faultAfter .expectedIdent)

/-! ### Numbers -/

inductive Number where
  | int (n : Int)
  | float (x : Float)

def largestWord : Nat := UInt64.size - 1

/-- Reads digits into the significand while it fits into 64 bits, and counts them. -/
def digits : List UInt8 → Nat → Nat → Cursor → Nat × Nat × Cursor
  | [], significand, count, c => (significand, count, c)
  | b :: rest, significand, count, c =>
    let next := significand * 10 + (b.toNat - 48)
    if Cursor.isDigit b && next ≤ largestWord then digits rest next (count + 1) (c.step b rest)
    else (significand, count, c)

/-- Counts the digits ahead and steps over them. -/
def countDigits : List UInt8 → Nat → Cursor → Nat × Cursor
  | [], count, c => (count, c)
  | b :: rest, count, c =>
    if Cursor.isDigit b then countDigits rest (count + 1) (c.step b rest) else (count, c)

def powerOfTen (e : Nat) : Float := Float.ofScientific 1 false e

/-- Scales a significand by a power of ten from a table that ends at `10 ^ 308`; smaller numbers are
reached by repeated division. `none` when the result is not finite. -/
def scale : Nat → Float → Int → Option Float
  | 0, x, _ => some x
  | fuel + 1, x, e =>
    if e.natAbs ≤ 308 then
      if 0 ≤ e then
        let scaled := x * powerOfTen e.natAbs
        if scaled.isInf then none else some scaled
      else some (x / powerOfTen e.natAbs)
    else if x == 0 then some x
    else if 0 ≤ e then none
    else scale fuel (x / powerOfTen 308) (e + 308)

/-- Fewer divisions than this bring every 64-bit significand to zero. -/
def scaleFuel : Nat := 8

def signed (negative : Bool) (x : Float) : Float := if negative then -x else x

def ofParts (negative : Bool) (significand : Nat) (e : Int) : Reader Number := fun c =>
  match scale scaleFuel significand.toUInt64.toFloat e with
  | some x => .ok (.float (signed negative x), c)
  | none => .error (c.faultAfter .numberOutOfRange)

def largestExponent : Nat := 0x7fffffff

/-- Reads the digits of an exponent while it fits; `none` when the digit just read does not. -/
def exponentDigits : List UInt8 → Nat → Cursor → Option Nat × Cursor
  | [], e, c => (some e, c)
  | b :: rest, e, c =>
    if Cursor.isDigit b then
      let next := e * 10 + (b.toNat - 48)
      if next ≤ largestExponent then exponentDigits rest next (c.step b rest)
      else (none, c.step b rest)
    else (some e, c)

/-- Keeps a sum of exponents within 32 bits. -/
def clampExponent (e : Int) : Int := max Int32.minValue.toInt (min Int32.maxValue.toInt e)

/-- Reads an exponent from its letter on. -/
def exponentPart (negative : Bool) (significand : Nat) (e : Int) : Reader Number := fun c =>
  let c := c.advance
  let down := c.peeks '-'
  let c := if down || c.peeks '+' then c.advance else c
  match c.rest with
  | [] => .error (c.faultAfter .eofValue)
  | b :: rest =>
    let c := c.step b rest
    if Cursor.isDigit b then
      match exponentDigits c.rest (b.toNat - 48) c with
      | (some n, c) =>
        ofParts negative significand (clampExponent (if down then e - n else e + n)) c
      | (none, c) =>
        if significand ≠ 0 && !down then .error (c.faultAfter .numberOutOfRange)
        else .ok (.float (signed negative 0), c.skipDigits)
    else .error (c.faultAfter .invalidNumber)

def exponentOrEnd (negative : Bool) (significand : Nat) (e : Int) : Reader Number := fun c =>
  if c.peeks 'e' || c.peeks 'E' then exponentPart negative significand e c
  else ofParts negative significand e c

/-- Reads a fraction from its point on. Digits past the 64th bit are dropped. -/
def fractionPart (negative : Bool) (significand : Nat) (e : Int) : Reader Number := fun c =>
  let c := c.advance
  let (significand, count, c) := digits c.rest significand 0 c
  match c.rest with
  | b :: _ =>
    if Cursor.isDigit b then exponentOrEnd negative significand (e - count) c.skipDigits
    else if count = 0 then .error (c.faultAhead .invalidNumber)
    else exponentOrEnd negative significand (e - count) c
  | [] =>
    if count = 0 then .error (c.faultAhead .eofValue)
    else exponentOrEnd negative significand (e - count) c

/-- A whole number: the negative ones below `-2 ^ 63` and minus zero become floats. -/
def wholeNumber (negative : Bool) (significand : Nat) : Number :=
  if !negative then .int significand
  else if significand = 0 || 0x8000000000000000 < significand then
    .float (-significand.toUInt64.toFloat)
  else .int (-significand)

/-- What follows the digits before the point. -/
def numberTail (negative : Bool) (significand : Nat) : Reader Number := fun c =>
  if c.peeks '.' then fractionPart negative significand 0 c
  else if c.peeks 'e' || c.peeks 'E' then exponentPart negative significand 0 c
  else .ok (wholeNumber negative significand, c)

/-- Reads a number after its sign. -/
def number (negative : Bool) : Reader Number := fun c =>
  match c.rest with
  | [] => .error (c.faultAfter .eofValue)
  | b :: rest =>
    let first := c.step b rest
    if b = '0'.toUInt8 then
      match rest with
      | d :: _ =>
        if Cursor.isDigit d then .error (first.faultAhead .invalidNumber)
        else numberTail negative 0 first
      | [] => numberTail negative 0 first
    else if Cursor.isDigit b then
      let (significand, _, c) := digits rest (b.toNat - 48) 0 first
      match c.rest with
      | d :: _ =>
        if Cursor.isDigit d then
          let (dropped, c) := countDigits c.rest 0 c
          if c.peeks '.' then fractionPart negative significand dropped c
          else exponentOrEnd negative significand dropped c
        else numberTail negative significand c
      | [] => numberTail negative significand c
    else .error (first.faultAfter .invalidNumber)

end ModuleSystem.Json
