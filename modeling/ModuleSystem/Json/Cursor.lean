/-! Places in an input text. A place counts lines, the bytes since the last line break, and the
characters since then: every byte that does not continue a character begins one. -/

namespace ModuleSystem.Json

structure Cursor where
  rest : List UInt8
  line : Nat
  column : Nat
  chars : Nat

namespace Cursor

def ofBytes (bytes : List UInt8) : Cursor := ⟨bytes, 1, 0, 0⟩

def beginsChar (b : UInt8) : Bool := b < 0x80 || 0xc0 ≤ b

/-- The place after byte `b`, where `rest` follows. -/
def step (c : Cursor) (b : UInt8) (rest : List UInt8) : Cursor :=
  if b = '\n'.toUInt8 then ⟨rest, c.line + 1, 0, 0⟩
  else ⟨rest, c.line, c.column + 1, c.chars + (beginsChar b).toNat⟩

/-- One byte further, unless the input ends here. -/
def advance (c : Cursor) : Cursor :=
  match c.rest with
  | [] => c
  | b :: rest => c.step b rest

def isSpace (b : UInt8) : Bool :=
  b = ' '.toUInt8 || b = '\n'.toUInt8 || b = '\t'.toUInt8 || b = '\r'.toUInt8

def isDigit (b : UInt8) : Bool := '0'.toUInt8 ≤ b && b ≤ '9'.toUInt8

/-- Steps over the leading bytes of `bytes` that satisfy `p`; `bytes` is what follows `c`. -/
def skip (p : UInt8 → Bool) : List UInt8 → Cursor → Cursor
  | [], c => c
  | b :: rest, c => if p b then skip p rest (c.step b rest) else c

def skipSpaces (c : Cursor) : Cursor := skip isSpace c.rest c

def skipDigits (c : Cursor) : Cursor := skip isDigit c.rest c

def peek? (c : Cursor) : Option UInt8 := c.rest.head?

def peeks (c : Cursor) (ch : Char) : Bool := c.peek? == some ch.toUInt8

end Cursor

/-- What can be wrong with the form of an interchange text. -/
inductive Fault where
  | eofValue
  | eofString
  | eofList
  | eofObject
  | expectedValue
  | expectedIdent
  | expectedColon
  | expectedListEnd
  | expectedObjectEnd
  | keyNotString
  | trailingComma
  | trailingCharacters
  | invalidNumber
  | numberOutOfRange
  | invalidEscape
  | loneSurrogate
  | unfinishedSurrogate
  | invalidCodePoint
  | controlCharacter
  | tooDeep
  deriving DecidableEq, Repr

def Fault.message : Fault → String
  | .eofValue => "EOF while parsing a value"
  | .eofString => "EOF while parsing a string"
  | .eofList => "EOF while parsing a list"
  | .eofObject => "EOF while parsing an object"
  | .expectedValue => "expected value"
  | .expectedIdent => "expected ident"
  | .expectedColon => "expected `:`"
  | .expectedListEnd => "expected `,` or `]`"
  | .expectedObjectEnd => "expected `,` or `\x7d`"
  | .keyNotString => "key must be a string"
  | .trailingComma => "trailing comma"
  | .trailingCharacters => "trailing characters"
  | .invalidNumber => "invalid number"
  | .numberOutOfRange => "number out of range"
  | .invalidEscape => "invalid escape"
  | .loneSurrogate => "lone leading surrogate in hex escape"
  | .unfinishedSurrogate => "unexpected end of hex escape"
  | .invalidCodePoint => "invalid unicode code point"
  | .controlCharacter => "control character (\\u0000-\\u001F) found while parsing a string"
  | .tooDeep => "recursion limit exceeded"

/-- A message with the line and byte column it belongs to. -/
structure ReadError where
  reason : String
  line : Nat
  column : Nat
  deriving DecidableEq, Repr

def ReadError.message (e : ReadError) : String :=
  s!"{e.reason} at line {e.line} column {e.column}"

namespace Cursor

/-- A fault of what has just been read. -/
def faultAfter (c : Cursor) (f : Fault) : ReadError := ⟨f.message, c.line, c.column⟩

/-- A fault of the byte that comes next. -/
def faultAhead (c : Cursor) (f : Fault) : ReadError := c.advance.faultAfter f

end Cursor
end ModuleSystem.Json
