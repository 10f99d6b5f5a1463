import DocExport.Number.Spelling

/-! Decimal numerals as JSON allows them: no leading zeros, no bare point, an optional exponent. -/
namespace DocExport

/-- A numeral in parts. `fraction` is empty without a point, `exponent` none without its mark. -/
structure Numeral where
  negative : Bool
  whole : List Char
  fraction : List Char
  exponent : Option Int
  deriving DecidableEq, Repr

namespace Numeral

def natural (digits : List Char) : Nat := Nat.ofDigitChars 10 digits 0

/-- The digits before the point: one, or several that do not start with zero. -/
def wholeOk : List Char → Bool
  | [] => false
  | [_] => true
  | first :: _ => first ≠ '0'

/-- The digits after the point, if there is one, and what follows them. -/
def fraction? : List Char → Option (List Char × List Char)
  | '.' :: rest =>
    let digits := rest.takeWhile Char.isDigit
    if digits.isEmpty then none else some (digits, rest.dropWhile Char.isDigit)
  | rest => some ([], rest)

def exponentDigits? (digits : List Char) : Option Int :=
  if !digits.isEmpty && digits.all Char.isDigit then some (natural digits : Int) else none

/-- The exponent, if there is one. Nothing may follow it. -/
def exponent? : List Char → Option (Option Int)
  | [] => some none
  | mark :: rest =>
    if mark = 'e' ∨ mark = 'E' then
      match rest with
      | '+' :: digits => (exponentDigits? digits).map some
      | '-' :: digits => (exponentDigits? digits).map fun e => some (-e)
      | digits => (exponentDigits? digits).map some
    else none

def ofUnsigned? (negative : Bool) (text : List Char) : Option Numeral := do
  let whole := text.takeWhile Char.isDigit
  if !wholeOk whole then none
  let (fraction, rest) ← fraction? (text.dropWhile Char.isDigit)
  let exponent ← exponent? rest
  return ⟨negative, whole, fraction, exponent⟩

/-- The numeral that is the whole text. -/
def ofChars? : List Char → Option Numeral
  | '-' :: text => ofUnsigned? true text
  | text => ofUnsigned? false text

/-- Without point and exponent, and in range. Minus zero is no integer. -/
def integer? (n : Numeral) : Option Int :=
  if n.fraction.isEmpty ∧ n.exponent = none then
    let magnitude : Int := natural n.whole
    let value := if n.negative then -magnitude else magnitude
    if Number.leastInteger ≤ value ∧ value ≤ Number.greatestInteger ∧ ¬(n.negative ∧ value = 0)
    then some value else none
  else none

/-- What the numeral denotes, none beyond the greatest double. -/
def number? (n : Numeral) : Option Number :=
  match n.integer? with
  | some value => some (.integer value)
  | none =>
    (Binary64.ofDecimal? n.negative
      ⟨natural (n.whole ++ n.fraction), n.exponent.getD 0 - n.fraction.length⟩).map .double

end Numeral

end DocExport
