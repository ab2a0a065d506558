import DataRules.Double.Binary
import DataRules.Double.Decimal

set_option autoImplicit false

/-!
# Double: the shortest digits of a double

The text of a double has the fewest decimal digits that still read back as that
double.  For one digit, two digits, and so on, the search takes the two
neighbours of the double on the grid of decimals with that many digits; the
first grid on which a neighbour reads back wins, and of two that do the nearer
one.  A double exactly halfway between them goes to the neighbour that the
caller's tie rule names.
-/

namespace DataRules.Double

/-- Which of two neighbours a number halfway between them goes to. -/
inductive Tie where
  /-- the larger neighbour -/
  | up
  /-- the neighbour with an even last digit -/
  | even
  deriving DecidableEq, Repr

namespace Tie

/-- The halfway point above the quotient `q` goes to `q + 1`. -/
def goesUp (tie : Tie) (q : Nat) : Bool :=
  match tie with
  | .up => true
  | .even => q % 2 == 1

end Tie

/-- The quotient `num / den`, rounded to the nearest integer. -/
def roundDiv (tie : Tie) (num den : Nat) : Nat :=
  let q := num / den
  let rest := 2 * (num % den)
  if den < rest ∨ (rest = den ∧ tie.goesUp q) then q + 1 else q

/-- The number of decimal digits of `n`; zero has one. -/
def digitCount (n : Nat) : Nat := (Nat.toDigits 10 n).length

/-- The power of ten just above `num / den`: the least `k` with
`num / den < 10 ^ k`. -/
def decimalScale (num den : Nat) : Int :=
  if den ≤ num then digitCount (num / den) else 1 - digitCount ((den - 1) / num)

/-- The quotient `num / den` measured in units of `10 ^ exponent`. -/
def inUnits (num den : Nat) (exponent : Int) : Nat × Nat :=
  if 0 ≤ exponent then (num, den * Nat.pow 10 exponent.toNat)
  else (num * Nat.pow 10 (-exponent).toNat, den)

namespace Shortest

/-- The neighbours of `num / den` on the grid with `n` digits, the nearer one
first.  A point of the grid has itself alone. -/
def neighbours (tie : Tie) (num den n : Nat) : List Decimal :=
  let exponent := decimalScale num den - n
  let units := inUnits num den exponent
  let below : Decimal := ⟨units.1 / units.2, exponent⟩
  let above : Decimal := Decimal.dropZero ⟨units.1 / units.2 + 1, exponent⟩
  if units.1 % units.2 = 0 then [below]
  else if roundDiv tie units.1 units.2 = units.1 / units.2 then [below, above]
  else [above, below]

/-- Every digit of `num / den` for a denominator that is a power of two. -/
def everyDigit (b : Binary) : Decimal :=
  if 0 ≤ b.exponent then ⟨b.mantissa * Nat.pow 2 b.exponent.toNat, 0⟩
  else ⟨b.mantissa * Nat.pow 5 (-b.exponent).toNat, b.exponent⟩

/-- The first decimal that reads back as `x`, over the grids of 1 to 17 digits. -/
def search (tie : Tie) (x : Float) (num den : Nat) : Option Decimal :=
  (List.range 17).findSome? fun n =>
    (neighbours tie num den (n + 1)).find? fun d => d.toFloat = x

end Shortest

/-- The shortest decimal that reads back as the magnitude of the fraction.  The
search ends within 17 digits; past that every digit is kept. -/
def shortest (tie : Tie) (b : Binary) : Decimal :=
  if b.mantissa = 0 then ⟨0, 0⟩
  else
    let magnitude : Binary := { b with negative := false }
    (Shortest.search tie magnitude.toFloat b.ratio.1 b.ratio.2).getD (Shortest.everyDigit b)

/-- What the search finds reads back. -/
theorem toFloat_of_search_eq_some {tie : Tie} {x : Float} {num den : Nat} {d : Decimal}
    (h : Shortest.search tie x num den = some d) : d.toFloat = x := by
  obtain ⟨n, -, hn⟩ := List.exists_of_findSome?_eq_some h
  simpa using List.find?_some hn

end DataRules.Double
