import DocExport.Number.Shortest

/-! Numbers of documents and their one spelling, the same in every output. -/
namespace DocExport

/-- An integer is kept exactly; any other number is the double nearest to what was written. -/
inductive Number where
  | integer (value : Int)
  | double (value : Binary64)
  deriving DecidableEq, Repr

namespace Number

/-- Integers fit a signed or an unsigned word of 64 bits. -/
def leastInteger : Int := -0x8000000000000000

def greatestInteger : Int := 0xFFFFFFFFFFFFFFFF

/-- How a double is spelled: positional while the power of ten of its first digit lies in a range,
otherwise with an exponent mark and the exponent's sign. -/
structure Style where
  leastPositional : Int
  greatestPositional : Int
  exponentMark : Char

/-- From 0.00001 to below 10 ^ 16 positionally, with at least one digit after the point. -/
def style : Style := ⟨-5, 15, 'e'⟩

/-- The digits with no zero at the end; zero keeps one. -/
def significantDigits (n : Nat) : List Char :=
  match ((Nat.toDigits 10 n).reverse.dropWhile (· = '0')).reverse with
  | [] => ['0']
  | digits => digits

/-- `digits` with the point after the digit for `10 ^ 0`, the first digit standing for
`10 ^ first`. -/
def positional (digits : List Char) (first : Int) : List Char :=
  if first < 0 then '0' :: '.' :: (List.replicate (-first - 1).toNat '0' ++ digits)
  else
    let whole := first.toNat + 1
    let fraction := digits.drop whole
    digits.take whole ++ List.replicate (whole - digits.length) '0' ++ '.' ::
      (if fraction.isEmpty then ['0'] else fraction)

def exponential (mark : Char) (digits : List Char) (first : Int) : List Char :=
  let sign := if first < 0 then '-' else '+'
  let fraction := digits.drop 1
  digits.take 1 ++ (if fraction.isEmpty then [] else '.' :: fraction) ++
    mark :: sign :: Nat.toDigits 10 first.natAbs

def Style.spell (s : Style) (x : Decimal) : List Char :=
  let digits := significantDigits x.digits
  let first : Int := ((Nat.toDigits 10 x.digits).length : Int) - 1 + x.exponent
  if s.leastPositional ≤ first ∧ first ≤ s.greatestPositional then positional digits first
  else exponential s.exponentMark digits first

def signed (negative : Bool) (digits : List Char) : List Char :=
  if negative then '-' :: digits else digits

def chars : Number → List Char
  | .integer value => signed (value < 0) (Nat.toDigits 10 value.natAbs)
  | .double value => signed value.negative (style.spell value.shortest)

end Number

end DocExport
