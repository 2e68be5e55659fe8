namespace ModuleSystem.Text

/-- The characters with the property White_Space. -/
def blankRanges : List (Nat × Nat) :=
  [(0x9, 0xd), (0x20, 0x20), (0x85, 0x85), (0xa0, 0xa0), (0x1680, 0x1680), (0x2000, 0x200a),
   (0x2028, 0x2029), (0x202f, 0x202f), (0x205f, 0x205f), (0x3000, 0x3000)]

def isBlank (c : Char) : Bool :=
  blankRanges.any fun r => r.1 ≤ c.toNat && c.toNat ≤ r.2

def dropBlanksEnd (chars : List Char) : List Char := (chars.reverse.dropWhile isBlank).reverse

def trimBlanks (chars : List Char) : List Char := dropBlanksEnd (chars.dropWhile isBlank)

/-- The lines of a text. A line break at the end begins no further line. -/
def lines (text : String) : List (List Char) :=
  let all := text.toList.splitOn '\n'
  if all.getLast? = some [] then all.dropLast else all

end ModuleSystem.Text
