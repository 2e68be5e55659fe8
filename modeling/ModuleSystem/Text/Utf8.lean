/-! UTF-8. Decoding stops at the first byte that rules the text out and says how many bytes before
it belong to the broken character, or that the text ends inside a character. -/

namespace ModuleSystem.Utf8

def continuation (n : Nat) : UInt8 := UInt8.ofNat (0x80 + n % 64)

def encodeChar (c : Char) : List UInt8 :=
  let n := c.toNat
  if n < 0x80 then [UInt8.ofNat n]
  else if n < 0x800 then [UInt8.ofNat (0xc0 + n / 64), continuation n]
  else if n < 0x10000 then
    [UInt8.ofNat (0xe0 + n / 4096), continuation (n / 64), continuation n]
  else
    [UInt8.ofNat (0xf0 + n / 262144), continuation (n / 4096), continuation (n / 64),
      continuation n]

def encodeChars (chars : List Char) : List UInt8 := chars.flatMap encodeChar

def encode (text : String) : List UInt8 := encodeChars text.toList

inductive Fault where
  /-- `length` bytes from index `start` on are no character. -/
  | invalid (length start : Nat)
  /-- The text ends inside the character that begins at `start`. -/
  | incomplete (start : Nat)
  deriving DecidableEq, Repr

def Fault.message : Fault → String
  | .invalid length start =>
    s!"invalid utf-8 sequence of {length} bytes from index {start}"
  | .incomplete start => s!"incomplete utf-8 byte sequence from index {start}"

/-- Between characters, or inside one: how many bytes are missing, the range of the next one, the
bits read so far and the number of bytes read. -/
inductive State where
  | between
  | inside (missing : Nat) (lowest highest : UInt8) (bits seen : Nat)

/-- The state after the first byte of a character of more than one byte. Narrower ranges for the
second byte keep out surrogates, overlong forms and numbers past the last character. -/
def lead (b : UInt8) : Option State :=
  let n := b.toNat
  if 0xc2 ≤ n ∧ n ≤ 0xdf then some (.inside 1 0x80 0xbf (n - 0xc0) 1)
  else if n = 0xe0 then some (.inside 2 0xa0 0xbf 0 1)
  else if n = 0xed then some (.inside 2 0x80 0x9f 13 1)
  else if 0xe1 ≤ n ∧ n ≤ 0xef then some (.inside 2 0x80 0xbf (n - 0xe0) 1)
  else if n = 0xf0 then some (.inside 3 0x90 0xbf 0 1)
  else if 0xf1 ≤ n ∧ n ≤ 0xf3 then some (.inside 3 0x80 0xbf (n - 0xf0) 1)
  else if n = 0xf4 then some (.inside 3 0x80 0x8f 4 1)
  else none

/-- Decodes from a state on; `start` is the index of the character being read. -/
def decodeFrom : State → Nat → List UInt8 → Except Fault (List Char)
  | .between, _, [] => .ok []
  | .inside .., start, [] => .error (.incomplete start)
  | .between, start, b :: rest =>
    if b < 0x80 then
      match decodeFrom .between (start + 1) rest with
      | .ok chars => .ok (Char.ofNat b.toNat :: chars)
      | .error e => .error e
    else
      match lead b with
      | some state => decodeFrom state start rest
      | none => .error (.invalid 1 start)
  | .inside missing lowest highest bits seen, start, b :: rest =>
    if lowest ≤ b ∧ b ≤ highest then
      let bits := bits * 64 + b.toNat % 64
      if missing ≤ 1 then
        match decodeFrom .between (start + seen + 1) rest with
        | .ok chars => .ok (Char.ofNat bits :: chars)
        | .error e => .error e
      else decodeFrom (.inside (missing - 1) 0x80 0xbf bits (seen + 1)) start rest
    else .error (.invalid seen start)

def decodeChars (bytes : List UInt8) : Except Fault (List Char) := decodeFrom .between 0 bytes

def decode (bytes : List UInt8) : Except Fault String :=
  match decodeChars bytes with
  | .ok chars => .ok (String.ofList chars)
  | .error e => .error e

/-- Stands for bytes that are no character. -/
def replacement : Char := '\ufffd'

/-- What a byte between characters does: the characters it completes, and the state after it. -/
def opening (b : UInt8) : List Char × State :=
  if b < 0x80 then ([Char.ofNat b.toNat], .between)
  else match lead b with
    | some state => ([], state)
    | none => ([replacement], .between)

/-- A byte that breaks a character off is looked at again, as the beginning of the next one. -/
def repairFrom : State → List UInt8 → List Char
  | .between, [] => []
  | .inside .., [] => [replacement]
  | .between, b :: rest =>
    let (chars, state) := opening b
    chars ++ repairFrom state rest
  | .inside missing lowest highest bits seen, b :: rest =>
    if lowest ≤ b ∧ b ≤ highest then
      let bits := bits * 64 + b.toNat % 64
      if missing ≤ 1 then Char.ofNat bits :: repairFrom .between rest
      else repairFrom (.inside (missing - 1) 0x80 0xbf bits (seen + 1)) rest
    else
      let (chars, state) := opening b
      replacement :: chars ++ repairFrom state rest

/-- Decodes what can be decoded. -/
def repair (bytes : List UInt8) : String := String.ofList (repairFrom .between bytes)

end ModuleSystem.Utf8
