/-! Decimal text of binary64 numbers. A number is read off its bits as an exact fraction; its
shortest decimal is the coarsest grid of powers of ten with a point that reads back as the
number. -/

namespace ModuleSystem.Decimal

/-- A positive binary64 number as `significand * 2 ^ exponent`, where the significand is below
`2 ^ 53`. `steepBelow` holds where the next smaller number is only half a step away. -/
structure Binary where
  significand : Nat
  exponent : Int
  steepBelow : Bool

def Binary.ofBits (bits : Nat) : Binary :=
  let fraction : Nat := bits % 0x10000000000000
  let biased : Nat := bits / 0x10000000000000 % 2048
  if biased = 0 then ⟨fraction, -1074, false⟩
  else ⟨0x10000000000000 + fraction, (biased : Int) - 1075, fraction = 0 ∧ 1 < biased⟩

/-- `coefficient * 10 ^ exponent`. -/
structure Point where
  coefficient : Nat
  exponent : Int
  deriving DecidableEq, Repr

/-- The fraction `n * 2 ^ e * 10 ^ t` as numerator and denominator. -/
def fraction (n : Nat) (e t : Int) : Nat × Nat :=
  (n * Nat.pow 2 e.toNat * Nat.pow 10 t.toNat, Nat.pow 2 (-e).toNat * Nat.pow 10 (-t).toNat)

def digitCount (n : Nat) : Nat := (Nat.toDigits 10 n).length

/-- Counts up from `t` until `n * 10 ^ t` reaches `d`. -/
def scaleUp (n d : Nat) : Nat → Nat → Nat
  | 0, t => t
  | fuel + 1, t => if n * Nat.pow 10 t < d then scaleUp n d fuel (t + 1) else t

/-- The exponent of the leading digit of `n / d`. No binary64 number lies below `10 ^ (-324)`. -/
def leadingExponent (n d : Nat) : Int :=
  if d ≤ n then (digitCount (n / d) : Int) - 1 else -(scaleUp n d 330 1 : Int)

/-- Whether `p` lies in the interval of reals that round to `b`. In quarters of a step, the ends
are two up and two down, or one down where the numbers below are denser; they belong to the
interval when the significand is even. -/
def readsBack (b : Binary) (p : Point) : Bool :=
  let (n, d) := fraction p.coefficient (2 - b.exponent) p.exponent
  let low := (4 * b.significand - if b.steepBelow then 1 else 2) * d
  let high := (4 * b.significand + 2) * d
  if b.significand % 2 = 0 then low ≤ n && n ≤ high else low < n && n < high

/-- Of the two neighbours of `b` on the grid of `10 ^ t`, the one that reads back; of two, the
nearer, and at equal distance the even one. -/
def onGrid? (b : Binary) (t : Int) : Option Point :=
  let (n, d) := fraction b.significand b.exponent (-t)
  let below : Point := ⟨n / d, t⟩
  let above : Point := ⟨n / d + 1, t⟩
  match readsBack b below, readsBack b above with
  | false, false => none
  | true, false => some below
  | false, true => some above
  | true, true =>
    let rest := 2 * (n % d)
    if rest < d then some below
    else if d < rest then some above
    else some (if n / d % 2 = 0 then below else above)

/-- Tries one digit, two digits, and so on. Seventeen always suffice. -/
def search (b : Binary) (lead : Int) : Nat → Nat → Point
  | 0, digits => ⟨b.significand, lead + 1 - digits⟩
  | fuel + 1, digits =>
    match onGrid? b (lead + 1 - digits) with
    | some p => p
    | none => search b lead fuel (digits + 1)

/-- Moves trailing zeros of the coefficient into the exponent. -/
def Point.trim : Nat → Point → Point
  | 0, p => p
  | fuel + 1, p =>
    if p.coefficient % 10 = 0 then trim fuel ⟨p.coefficient / 10, p.exponent + 1⟩ else p

/-- The shortest decimal that reads back as a positive number. -/
def shortest (b : Binary) : Point :=
  let (n, d) := fraction b.significand b.exponent 0
  (search b (leadingExponent n d) 17 1).trim 20

/-- How a number is laid out: leading exponents from `positionalFrom` up to but not including
`scientificFrom` are written positionally, with a fraction in any case. -/
structure Layout where
  positionalFrom : Int
  scientificFrom : Int

def zeros (n : Nat) : List Char := List.replicate n '0'

def Layout.write (layout : Layout) (p : Point) : List Char :=
  let digits := Nat.toDigits 10 p.coefficient
  let lead := p.exponent + digits.length - 1
  if layout.positionalFrom ≤ lead ∧ lead < layout.scientificFrom then
    if lead < 0 then '0' :: '.' :: zeros (-lead - 1).toNat ++ digits
    else if p.exponent < 0 then
      digits.take (lead.toNat + 1) ++ '.' :: digits.drop (lead.toNat + 1)
    else digits ++ zeros p.exponent.toNat ++ ['.', '0']
  else
    let tail := digits.drop 1
    digits.take 1 ++ (if tail.isEmpty then [] else '.' :: tail) ++ 'e' ::
      (if lead < 0 then '-' else '+') :: Nat.toDigits 10 lead.natAbs

/-- A finite number in a layout. Zero keeps its sign. -/
def Layout.float (layout : Layout) (x : Float) : List Char :=
  let bits := x.toBits.toNat
  let sign := if 0x8000000000000000 ≤ bits then ['-'] else []
  let magnitude := bits % 0x8000000000000000
  if magnitude = 0 then sign ++ ['0', '.', '0']
  else sign ++ layout.write (shortest (.ofBits magnitude))

/-- A quotient rounded to a whole number; a half goes to the even neighbour. -/
def roundDiv (n d : Nat) : Nat :=
  let rest := 2 * (n % d)
  if rest < d then n / d
  else if d < rest then n / d + 1
  else n / d + n / d % 2

/-- A finite number that is not negative, with one decimal place. -/
def tenths (x : Float) : List Char :=
  let b := Binary.ofBits (x.toBits.toNat % 0x8000000000000000)
  let (n, d) := fraction b.significand b.exponent 1
  let t := roundDiv n d
  Nat.toDigits 10 (t / 10) ++ '.' :: Nat.toDigits 10 (t % 10)

end ModuleSystem.Decimal
