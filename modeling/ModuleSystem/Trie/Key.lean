import ModuleSystem.Text.Fnv
import ModuleSystem.Text.Quoted
import ModuleSystem.Text.Utf8

/-! Keys of three sorts for maps that mix them. A bucketed key hashes by its bucket alone, so keys
of one bucket share their full hash; its tag rides along and takes no part in equality. -/

namespace ModuleSystem.Trie

inductive Key where
  | int (n : Int64)
  | text (s : String)
  | bucketed (bucket id : Int64) (tag : String)
  deriving DecidableEq

namespace Key

instance : BEq Key where
  beq
    | .int a, .int b => a == b
    | .text a, .text b => a == b
    | .bucketed b i _, .bucketed c j _ => b == c && i == j
    | _, _ => false

instance : Hashable Key where
  hash
    | .int n => Fnv.hashBytes (0 :: Fnv.wordBytes n.toUInt64)
    | .text s => Fnv.hashBytes (1 :: Utf8.encode s)
    | .bucketed bucket _ _ => Fnv.hashBytes (2 :: Fnv.wordBytes bucket.toUInt64)

/-- The order of listings: integers, then texts, then bucketed keys by id and bucket. -/
def le : Key → Key → Bool
  | .int a, .int b => a ≤ b
  | .int _, _ => true
  | .text a, .text b => !(b < a)
  | .text _, .bucketed .. => true
  | .bucketed b i _, .bucketed c j _ => i < j || (i == j && b ≤ c)
  | _, _ => false

/-- How a key is shown in a listing of a map. -/
def shown : Key → String
  | .int n => toString n.toInt
  | .text s => Text.quoted s
  | .bucketed bucket id tag => s!"({bucket.toInt}, {id.toInt}, {Text.quoted tag})"

end Key
end ModuleSystem.Trie
