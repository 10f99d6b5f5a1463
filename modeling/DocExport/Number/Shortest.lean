import DocExport.Number.Binary64

/-! The fewest decimal digits that read back as a given double. A decimal reads back when it lies
in the interval of numbers nearer to the double than to its neighbours; the ends belong to the
interval when the significand is even. Grids of one, two, … seventeen digits are tried in turn. -/
namespace DocExport.Binary64

/-- A double as a fraction over quarter steps: `value = 4 · significand · unit`, and both ends of
the interval are whole multiples of `unit = unitNumerator / unitDenominator`. -/
structure Interval where
  low : Nat
  value : Nat
  high : Nat
  closed : Bool
  unitNumerator : Nat
  unitDenominator : Nat

/-- Below a power of two the neighbour is half a step away, so the interval is narrower there. -/
def interval (x : Binary64) : Interval :=
  let narrow := x.significand = leastFull ∧ leastExponent < x.exponent
  let quarter := x.exponent - 2
  { low := 4 * x.significand - (if narrow then 1 else 2)
    value := 4 * x.significand
    high := 4 * x.significand + 2
    closed := x.significand % 2 = 0
    unitNumerator := Nat.pow 2 quarter.toNat
    unitDenominator := Nat.pow 2 (-quarter).toNat }

/-- Whether `c · 10 ^ grid` reads back. -/
def Interval.holds (i : Interval) (grid : Int) (c : Nat) : Bool :=
  let point := c * Nat.pow 10 grid.toNat * i.unitDenominator
  let unit := i.unitNumerator * Nat.pow 10 (-grid).toNat
  if i.closed then i.low * unit ≤ point ∧ point ≤ i.high * unit
  else i.low * unit < point ∧ point < i.high * unit

/-- The value in steps of `10 ^ grid`, as a numerator and a denominator. -/
def Interval.inSteps (i : Interval) (grid : Int) : Nat × Nat :=
  (i.value * i.unitNumerator * Nat.pow 10 (-grid).toNat, i.unitDenominator * Nat.pow 10 grid.toNat)

/-- The nearer of the value's two neighbours on a decimal grid, if one of them reads back. Halfway
between two that do, the even one. -/
def Interval.onGrid? (i : Interval) (grid : Int) : Option Decimal :=
  let (n, d) := i.inSteps grid
  let below := n / d
  match i.holds grid below, i.holds grid (below + 1) with
  | true, true => some ⟨roundHalfEven n d, grid⟩
  | true, false => some ⟨below, grid⟩
  | false, true => some ⟨below + 1, grid⟩
  | false, false => none

/-- The power of ten of the first digit of `n / d`. -/
def leadingExponent (n d : Nat) : Int :=
  let guess : Int := (Nat.toDigits 10 n).length - (Nat.toDigits 10 d).length
  if d * Nat.pow 10 guess.toNat ≤ n * Nat.pow 10 (-guess).toNat then guess else guess - 1

/-- So many digits are enough for every double. -/
def mostDigits : Nat := 17

/-- The shortest decimal that reads back as the absolute value of `x`, and of those the nearest. -/
def shortest (x : Binary64) : Decimal :=
  if x.significand = 0 then ⟨0, 0⟩
  else
    let i := x.interval
    let (n, d) := i.inSteps 0
    let first := leadingExponent n d
    ((List.range mostDigits).findSome? fun (k : Nat) => i.onGrid? (first - k)).getD
      ⟨i.value * i.unitNumerator, 0⟩

end DocExport.Binary64
