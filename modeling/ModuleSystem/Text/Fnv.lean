/-! A 64-bit hash of byte strings: each byte is mixed in and the word is multiplied by a fixed
prime. -/

namespace ModuleSystem.Fnv

def mix (h : UInt64) (b : UInt8) : UInt64 := (h ^^^ b.toUInt64) * 0x100000001b3

def hashBytes (bytes : List UInt8) : UInt64 := bytes.foldl mix 0xcbf29ce484222325

/-- The eight bytes of a word, lowest first. -/
def wordBytes (w : UInt64) : List UInt8 :=
  (List.range 8).map fun i => (w.toNat / Nat.pow 256 i).toUInt8

end ModuleSystem.Fnv
