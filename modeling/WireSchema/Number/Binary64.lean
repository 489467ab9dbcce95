/-!
Binary floating-point numbers of 64 bits, as exact integers. Results are rounded to the nearest
number, and to the even one of two that are equally near.
-/

namespace WireSchema

/-- The non-negative number `mantissa * 2 ^ exponent`. The mantissa has 53 bits, or fewer with the
least exponent. -/
structure Binary64 where
  mantissa : Nat
  exponent : Int
  deriving DecidableEq, Repr

namespace Binary64

def leastExponent : Int := -1074

def greatestExponent : Int := 971

def leastMantissa : Nat := 0x10000000000000

def zero : Binary64 := ⟨0, leastExponent⟩

def isZero (x : Binary64) : Bool := x.mantissa == 0

/-- The integer nearest to a fraction, and the even one of two. -/
def roundDiv (num den : Nat) : Nat :=
  let q := num / den
  let r := num % den
  if 2 * r < den then q
  else if 2 * r > den then q + 1
  else if q % 2 == 0 then q else q + 1

def inUnits (num den : Nat) (e : Int) : Nat × Nat :=
  if 0 ≤ e then (num, den * Nat.pow 2 e.toNat) else (num * Nat.pow 2 (-e).toNat, den)

/-- The exponent at which a fraction has a mantissa of 53 bits, or the least one. -/
def exponentFor (num den : Nat) : Int :=
  let guess := max ((Nat.log2 num : Int) - Nat.log2 den - 52) leastExponent
  let (n, d) := inUnits num den guess
  if n < leastMantissa * d then max (guess - 1) leastExponent else guess

def ofRatio? (num den : Nat) : Option Binary64 :=
  if num == 0 then some zero
  else
    let e := exponentFor num den
    let (n, d) := inUnits num den e
    let m := roundDiv n d
    let x : Binary64 := if m == 2 * leastMantissa then ⟨leastMantissa, e + 1⟩ else ⟨m, e⟩
    if x.exponent ≤ greatestExponent then some x else none

def toRatio (x : Binary64) : Nat × Nat :=
  if 0 ≤ x.exponent then (x.mantissa * Nat.pow 2 x.exponent.toNat, 1)
  else (x.mantissa, Nat.pow 2 (-x.exponent).toNat)

def mul? (x y : Binary64) : Option Binary64 :=
  ofRatio? (x.toRatio.1 * y.toRatio.1) (x.toRatio.2 * y.toRatio.2)

def div? (x y : Binary64) : Option Binary64 :=
  ofRatio? (x.toRatio.1 * y.toRatio.2) (x.toRatio.2 * y.toRatio.1)

/-- The greatest power of ten in range. -/
def greatestPower : Nat := 308

/-- Divides by `10 ^ n`, in steps that are in range, each of them rounded. -/
def divPower? (x : Binary64) (n : Nat) : Option Binary64 :=
  if n ≤ greatestPower then (ofRatio? (Nat.pow 10 n) 1).bind x.div?
  else if x.isZero then some x
  else
    ((ofRatio? (Nat.pow 10 greatestPower) 1).bind x.div?).bind fun y =>
      divPower? y (n - greatestPower)
termination_by n
decreasing_by
  simp only [greatestPower] at *
  omega

/-- `significand * 10 ^ exponent`, with the significand rounded first, then the power of ten, then
their product. Nothing if the result is out of range. -/
def ofDecimal? (significand : Nat) (exponent : Int) : Option Binary64 :=
  (ofRatio? significand 1).bind fun x =>
    if exponent < 0 then x.divPower? (-exponent).toNat
    else if exponent ≤ greatestPower then (ofRatio? (Nat.pow 10 exponent.toNat) 1).bind x.mul?
    else if x.isZero then some x
    else none

end Binary64

end WireSchema
