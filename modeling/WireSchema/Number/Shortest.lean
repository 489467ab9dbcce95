import WireSchema.Number.Binary64

/-!
The shortest decimal of a binary number: the fewest digits that read back as it, and of those the
nearest to it.
-/

namespace WireSchema

structure Decimal where
  digits : Nat
  exponent : Int
  deriving DecidableEq, Repr

namespace Binary64

/-- The ends of the interval of reals that round to the number, in units of a quarter of its last
place, with the number itself between them. The gap below a power of two is half as wide. -/
def interval (x : Binary64) : Nat × Nat × Nat :=
  let center := 4 * x.mantissa
  let below := if x.mantissa == leastMantissa && leastExponent < x.exponent then 1 else 2
  (center - below, center, center + 2)

/-- `n * 10 ^ k` and a multiple of `2 ^ (e - 2)`, brought to a common denominator. -/
def compareParts (x : Binary64) (k : Int) : Nat × Nat :=
  let e := x.exponent - 2
  let ten := if 0 ≤ k then Nat.pow 10 k.toNat else 1
  let tenDen := if 0 ≤ k then 1 else Nat.pow 10 (-k).toNat
  let two := if 0 ≤ e then Nat.pow 2 e.toNat else 1
  let twoDen := if 0 ≤ e then 1 else Nat.pow 2 (-e).toNat
  (ten * twoDen, two * tenDen)

/-- Whether `n * 10 ^ k` rounds to the number. -/
def admits (x : Binary64) (k : Int) (n : Nat) : Bool :=
  let (ten, two) := x.compareParts k
  let (low, _, high) := x.interval
  let v := n * ten
  if x.mantissa % 2 == 0 then low * two ≤ v && v ≤ high * two
  else low * two < v && v < high * two

/-- The nearest multiple of `10 ^ k` that rounds to the number; of two that are equally near, the
even one. -/
def onGrid? (x : Binary64) (k : Int) : Option Nat :=
  let (ten, two) := x.compareParts k
  let (_, center, _) := x.interval
  let v := center * two
  let n := v / ten
  let r := v % ten
  let nearer := if 2 * r < ten then n else if 2 * r > ten then n + 1 else n + n % 2
  let farther := if nearer == n then n + 1 else n
  if x.admits k nearer then some nearer
  else if x.admits k farther then some farther
  else none

def topExponent (x : Binary64) : Int :=
  let (num, den) := x.toRatio
  (Nat.toDigits 10 num).length - (Nat.toDigits 10 den).length + 1

def firstGrid? (x : Binary64) : List Int → Option Decimal
  | [] => none
  | k :: ks =>
    match x.onGrid? k with
    | some n => some ⟨n, k⟩
    | none => firstGrid? x ks

/-- Powers of ten from the top down to more digits than any number needs. -/
def grids (x : Binary64) : List Int :=
  (List.range 22).map fun (i : Nat) => x.topExponent - i

def shortest (x : Binary64) : Decimal := (x.firstGrid? x.grids).getD ⟨x.mantissa, 0⟩

end Binary64

structure DecimalFormat where
  leastPositional : Int
  greatestPositional : Int

/-- A decimal in positional form, with at least one digit after the point. -/
def Decimal.positional (digits : List Char) (scale : Int) : List Char :=
  if scale < 0 then
    ['0', '.'] ++ List.replicate (-scale - 1).toNat '0' ++ digits
  else
    let whole := scale.toNat + 1
    if digits.length ≤ whole then
      digits ++ List.replicate (whole - digits.length) '0' ++ ['.', '0']
    else
      digits.take whole ++ '.' :: digits.drop whole

/-- A decimal with one digit before the point, and an exponent with its sign. -/
def Decimal.scientific (digits : List Char) (scale : Int) : List Char :=
  let mantissa :=
    match digits with
    | [] => []
    | [d] => [d]
    | d :: ds => d :: '.' :: ds
  let sign := if scale < 0 then '-' else '+'
  mantissa ++ 'e' :: sign :: Nat.toDigits 10 scale.natAbs

def Decimal.render (format : DecimalFormat) (d : Decimal) : String :=
  let digits := Nat.toDigits 10 d.digits
  let scale := d.exponent + digits.length - 1
  String.ofList
    (if format.leastPositional ≤ scale && scale ≤ format.greatestPositional then
      Decimal.positional digits scale
    else
      Decimal.scientific digits scale)

end WireSchema
