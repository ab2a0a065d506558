import DataRules.Double.Numeral

set_option autoImplicit false

/-!
# Json: the double of a number

The digits of a number are taken onto an integer of 64 bits, which is converted to a
double and then multiplied or divided by a power of ten.  That is quick, and it is
not always the double nearest to the number: the integer is rounded when it has more
than 53 bits, a table's power of ten is when it is beyond `10 ^ 22`, and the product
or the quotient is rounded once more.
-/

namespace DataRules.Double

/-- The greatest power of ten that a double holds. -/
def maxPowerOfTen : Nat := 308

/-- The double nearest to a power of ten. -/
def powerOfTen (n : Nat) : Float := (⟨1, n⟩ : Decimal).toFloat

/-- The double divided by the greatest power of ten a number of times, or until
nothing is left of it. -/
def shrink : Nat → Float → Float
  | 0, x => x
  | times + 1, x => if x == 0 then x else shrink times (x / powerOfTen maxPowerOfTen)

/-- The double times a power of ten.  A power past the greatest one makes it
infinite, and takes it down in more than one division. -/
def scale (x : Float) (power : Int) : Float :=
  if 0 ≤ power then
    if power ≤ maxPowerOfTen then x * powerOfTen power.toNat
    else if x == 0 then x
    else infinity
  else
    let times := (power.natAbs - 1) / maxPowerOfTen
    shrink times x / powerOfTen (power.natAbs - maxPowerOfTen * times)

namespace Numeral

/-- The integer with one more digit. -/
def withDigit (n : Nat) (c : Char) : Nat := 10 * n + (c.toNat - '0'.toNat)

/-- The digits taken onto an integer as long as 64 bits hold it, and the digits that
are left. -/
def takeOn : Nat → List Char → Nat × List Char
  | n, [] => (n, [])
  | n, c :: cs => if withDigit n c < UInt64.size then takeOn (withDigit n c) cs else (n, c :: cs)

/-- The double of the numeral, by scaling.  Digits of the integer part that are left
count as powers of ten, and those of the fraction do not count. -/
def scaled (n : Numeral) : Float :=
  let (whole, wholeRest) := takeOn 0 n.whole
  let (digits, fractionRest) := takeOn whole n.fraction
  let taken := n.fraction.length - fractionRest.length
  let x := scale digits.toUInt64.toFloat (n.power + wholeRest.length - taken)
  if n.negative then -x else x

end Numeral

end DataRules.Double
