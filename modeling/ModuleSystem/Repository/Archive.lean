import ModuleSystem.Fields
import ModuleSystem.Text.Blank
import ModuleSystem.Text.Utf8

/-! Tape archives: blocks of 512 bytes, where each member has a header and then its bytes, filled up
to whole blocks. A block of zeros ends the archive. Some members only describe the next one: they
give it a name, or other properties, that its header has no room for. -/

namespace ModuleSystem.Archive

inductive Fault where
  | partialHeader
  | checksum
  | notNumber (text field name : String)
  | notText (text field name : String)
  | cutShort
  | sizeOverflow
  | twoLongNames
  | twoExtensions
  | sparse
  | nothingDescribed
  deriving DecidableEq, Repr

def Fault.message : Fault → String
  | .partialHeader => "failed to read entire block"
  | .checksum => "archive header checksum mismatch"
  | .notNumber text field name =>
    s!"numeric field was not a number: {text} when getting {field} for {name}"
  | .notText text field name =>
    s!"numeric field did not have utf-8 text: {text} when getting {field} for {name}"
  | .cutShort => "unexpected EOF during skip"
  | .sizeOverflow => "size overflow"
  | .twoLongNames => "two long name entries describing the same member"
  | .twoExtensions => "two pax extensions entries describing the same member"
  | .sparse => "sparse entry type listed but not GNU header"
  | .nothingDescribed =>
    "members found describing a future member but no future member found"

abbrev Header := List UInt8

def blockSize : Nat := 512

namespace Header

def field (h : Header) (start length : Nat) : List UInt8 := (h.drop start).take length

def upToNul (bytes : List UInt8) : List UInt8 := bytes.takeWhile (· ≠ 0)

def isUstar (h : Header) : Bool := h.field 257 8 == Utf8.encode "ustar\x0000"

def isGnu (h : Header) : Bool := h.field 257 8 == Utf8.encode "ustar  \x00"

/-- The name that the header itself gives. One of the two layouts splits long names in two. -/
def name (h : Header) : List UInt8 :=
  let last := upToNul (h.field 0 100)
  let first := upToNul (h.field 345 155)
  if h.isUstar && !first.isEmpty then first ++ '/'.toUInt8 :: last else last

def kind (h : Header) : UInt8 := (h[156]?).getD 0

/-- The sum of the bytes, where those of the sum itself count as blanks. -/
def byteSum (h : Header) : Nat :=
  (h.take 148 ++ h.drop 156).foldr (·.toNat + ·) (8 * 32)

end Header

/-- A number in the digits of a base below ten, perhaps after a plus sign. -/
def natural? (base bound : Nat) (chars : List Char) : Option Nat :=
  let digits := match chars with
    | '+' :: rest => rest
    | _ => chars
  if digits.isEmpty || !digits.all (fun c => c.isDigit && c.toNat - 48 < base) then none
  else
    let n := digits.foldl (fun n c => n * base + (c.toNat - 48)) 0
    if n < bound then some n else none

/-- Reads a field in octal digits, with blanks around them. -/
def octal (h : Header) (field : String) (bytes : List UInt8) : Except Fault Nat :=
  let bytes := Header.upToNul bytes
  match Utf8.decodeChars bytes with
  | .error _ => .error (.notText (Utf8.repair bytes) field (Utf8.repair h.name))
  | .ok chars =>
    match natural? 8 UInt64.size (Text.trimBlanks chars) with
    | some n => .ok n
    | none => .error (.notNumber (String.ofList chars) field (Utf8.repair h.name))

/-- The size of a member. Large sizes are written in binary, in the last eight bytes. -/
def Header.size (h : Header) : Except Fault Nat :=
  let bytes := h.field 124 12
  if 0x80 ≤ (bytes.head?).getD 0 then
    .ok ((bytes.drop 4).foldl (fun n b => n * 256 + b.toNat) 0)
  else octal h "size" bytes

def Header.check (h : Header) : Except Fault Unit := do
  if (← octal h "cksum" (h.field 148 8)) ≠ h.byteSum then throw .checksum

/-- One property a line: the length of the line, its key and its value. -/
def property? (line : List UInt8) : Option (List UInt8 × List UInt8) := do
  let (digits, rest) := line.span (· ≠ ' '.toUInt8)
  let length ← natural? 10 UInt64.size (← (Utf8.decodeChars digits).toOption)
  if line.length + 1 ≠ length then none
  else
    let (key, value) := (rest.drop 1).span (· ≠ '='.toUInt8)
    if rest.isEmpty || value.isEmpty then none else some (key, value.drop 1)

/-- The lines up to the first empty one. -/
def propertyLines (bytes : List UInt8) : List (List UInt8) :=
  (bytes.splitOn '\n'.toUInt8).takeWhile (! ·.isEmpty)

/-- The path among the properties; lines that are malformed do not count. -/
def path? (bytes : List UInt8) : Option (List UInt8) :=
  ((propertyLines bytes).filterMap property?).lookup (Utf8.encode "path")

/-- The size among the properties, unless a malformed line comes before it. -/
def sizeIn? : List (List UInt8) → Option Nat
  | [] => none
  | line :: rest =>
    match property? line with
    | none => none
    | some (key, value) =>
      if key = Utf8.encode "size" then do
        natural? 10 UInt64.size (← (Utf8.decodeChars value).toOption)
      else sizeIn? rest

/-- What is known of the next member. -/
structure Described where
  longName : Option (List UInt8)
  longLink : Option (List UInt8)
  properties : Option (List UInt8)

def Described.nothing : Described := ⟨none, none, none⟩

def Described.isNothing (d : Described) : Bool :=
  d.longName.isNone && d.longLink.isNone && d.properties.isNone

/-- The name of a member: the long name, else the path among the properties, else the header's. -/
def Described.name (d : Described) (h : Header) : List UInt8 :=
  match d.longName with
  | some bytes => if bytes.getLast? = some 0 then bytes.dropLast else bytes
  | none => ((d.properties.bind path?)).getD h.name

def dropDots : List Char → List Char
  | '.' :: '/' :: rest => dropDots rest
  | chars => chars

/-- Names use slashes and do not start at the current directory. -/
def memberName (bytes : List UInt8) : String :=
  let chars := (Utf8.repair bytes).toList.map fun c => if c = '\x5c' then '/' else c
  String.ofList (dropDots chars)

/-- What a header is about: a file, something about the next member, or neither. -/
inductive Role where
  | file
  | longName
  | longLink
  | properties
  | sparse
  | other

def roleOf (h : Header) : Role :=
  let known := h.isUstar || h.isGnu
  if h.kind = 0 || h.kind = '0'.toUInt8 then .file
  else if known && h.kind = 'L'.toUInt8 then .longName
  else if known && h.kind = 'K'.toUInt8 then .longLink
  else if known && h.kind = 'x'.toUInt8 then .properties
  else if h.kind = 'S'.toUInt8 && !h.isGnu then .sparse
  else .other

def padded (size : Nat) : Nat := (size + (blockSize - 1)) / blockSize * blockSize

/-- Reads files from a header on. The first `skip` bytes belong to the member before, `position` is
the number of bytes before them. -/
def filesFrom : Nat → Nat → Nat → Described → List UInt8 →
    Except Fault (List (String × List UInt8))
  | 0, _, _, _, _ => .ok []
  | fuel + 1, position, skip, described, bytes =>
    if bytes.length < skip then .error .cutShort
    else
      let header := (bytes.drop skip).take blockSize
      let body := (bytes.drop skip).drop blockSize
      if header.isEmpty || (header.length = blockSize && header.all (· = 0)) then
        if described.isNothing then .ok [] else .error .nothingDescribed
      else if header.length < blockSize then .error .partialHeader
      else do
        Header.check header
        let own ← Header.size header
        let size := (described.properties.bind fun p => sizeIn? (propertyLines p)).getD own
        let position := position + skip + blockSize
        if UInt64.size ≤ size + (blockSize - 1) || UInt64.size ≤ position + padded size then
          throw .sizeOverflow
        let next := filesFrom fuel position (padded size)
        match roleOf header with
        | .longName =>
          if described.longName.isSome then throw .twoLongNames
          next { described with longName := some (body.take size) } body
        | .longLink =>
          if described.longLink.isSome then throw .twoLongNames
          next { described with longLink := some (body.take size) } body
        | .properties =>
          if described.properties.isSome then throw .twoExtensions
          next { described with properties := some (body.take size) } body
        | .sparse => throw .sparse
        | .other => next .nothing body
        | .file =>
          let rest ← next .nothing body
          return (memberName (described.name header), body.take size) :: rest

/-- The files of an archive. Of two files of one name the later one counts. -/
def files (bytes : List UInt8) : Except Fault (Fields (List UInt8)) := do
  return .ofList (← filesFrom (bytes.length / blockSize + 2) 0 0 .nothing bytes)

end ModuleSystem.Archive
