/-! Finite doubles as exact integers, and the double nearest to a decimal. Everything is computed
on whole numbers, so a decimal is rounded once, whatever its length. -/
namespace DocExport

/-- The value ±`significand` · 2 ^ `exponent`. A nonzero significand has 53 bits, or fewer at the
least exponent. -/
structure Binary64 where
  negative : Bool
  significand : Nat
  exponent : Int
  deriving DecidableEq, Repr

/-- `digits` · 10 ^ `exponent`. -/
structure Decimal where
  digits : Nat
  exponent : Int
  deriving DecidableEq, Repr

namespace Binary64

def bits : Nat := 53

/-- The least significand of 53 bits. -/
def leastFull : Nat := Nat.pow 2 (bits - 1)

def leastExponent : Int := -1074
def greatestExponent : Int := 971

def zero (negative : Bool) : Binary64 := ⟨negative, 0, leastExponent⟩

/-- `n / d` as a whole number, a half going to the even neighbour. -/
def roundHalfEven (n d : Nat) : Nat :=
  let quotient := n / d
  let remainder := n % d
  if 2 * remainder < d then quotient
  else if d < 2 * remainder then quotient + 1
  else quotient + quotient % 2

/-- Numerator and denominator of `n / d / 2 ^ e`. -/
def scaled (n d : Nat) (e : Int) : Nat × Nat :=
  (n * Nat.pow 2 (-e).toNat, d * Nat.pow 2 e.toNat)

/-- The exponent that leaves 53 bits before the point of `n / d`, or the least one. -/
def exponentOf (n d : Nat) : Int :=
  let guess : Int := n.log2 - d.log2 - (bits - 1)
  let (a, b) := scaled n d guess
  max leastExponent (if a / b < leastFull then guess - 1 else guess)

/-- The double nearest to ±`n / d`, none if that is beyond the greatest one. -/
def ofRatio? (negative : Bool) (n d : Nat) : Option Binary64 :=
  if n = 0 then some (zero negative)
  else
    let e := exponentOf n d
    let (a, b) := scaled n d e
    let m := roundHalfEven a b
    let (m, e) := if m = 2 * leastFull then (leastFull, e + 1) else (m, e)
    if greatestExponent < e then none
    else if m = 0 then some (zero negative)
    else some ⟨negative, m, e⟩

/-- Powers of ten beyond this distance from one are all infinite or all zero. -/
def decimalReach : Int := 400

/-- The double nearest to a decimal, none if that is beyond the greatest one. Exponents of any
size are accepted: far outside the range of doubles the answer does not depend on the digits. -/
def ofDecimal? (negative : Bool) (x : Decimal) : Option Binary64 :=
  let magnitude : Int := (Nat.toDigits 10 x.digits).length + x.exponent
  if x.digits = 0 ∨ magnitude < -decimalReach then some (zero negative)
  else if decimalReach < magnitude then none
  else ofRatio? negative (x.digits * Nat.pow 10 x.exponent.toNat) (Nat.pow 10 (-x.exponent).toNat)

end Binary64

end DocExport
