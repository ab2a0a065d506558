import DataRules.Double.Shortest
import DataRules.Double.Numeral

set_option autoImplicit false

/-!
# Number: fixed-point decimals

Sums, differences and products of short decimals are computed on fixed-point
decimals, so that `0.1 + 0.2` is `0.3`.  Such a decimal has an integer
coefficient below `2 ^ 96` in magnitude and at most 28 places after the point; a
result that needs more gives up places, rounding half to even, and one that is
too large has no fixed-point form.
-/

namespace DataRules.Number

open DataRules.Double

/-- The number `coefficient / 10 ^ scale`. -/
structure Fixed where
  coefficient : Int
  scale : Nat
  deriving DecidableEq, Repr

namespace Fixed

/-- The greatest number of places after the point. -/
def maxScale : Nat := 28

/-- Coefficients stay below this bound in magnitude. -/
def bound : Nat := Nat.pow 2 96

/-- Operands have at most 15 significant digits: their coefficients stay below
this bound. -/
def shortBound : Nat := Nat.pow 10 15

/-- The integer with the sign of `like` and the magnitude `n`. -/
def withSign (like : Int) (n : Nat) : Int := if like < 0 then -(n : Int) else n

/-- The fixed-point form of a decimal.  Past 28 places the next digit decides
the rounding, five going up, and the rest is dropped. -/
def ofDecimal (negative : Bool) (d : Decimal) : Fixed :=
  let sign : Int := if negative then -1 else 1
  if 0 ≤ d.exponent then ⟨sign * (d.digits * Nat.pow 10 d.exponent.toNat : Nat), 0⟩
  else
    let places := (-d.exponent).toNat
    if places ≤ maxScale then ⟨sign * d.digits, places⟩
    else ⟨sign * roundDiv .up d.digits (Nat.pow 10 (places - maxScale)), maxScale⟩

/-- The power `10 ^ n` by repeated squaring in doubles, `square` running through
`10 ^ (2 ^ i)`. -/
def powerLoop : Nat → Nat → Float → Float → Float
  | 0, _, _, product => product
  | fuel + 1, n, square, product =>
      let product := if n % 2 = 1 then product * square else product
      if n / 2 = 0 then product else powerLoop fuel (n / 2) (square * square) product

/-- The power `10 ^ n` by repeated squaring in doubles.  For large `n` this is
not always the double nearest to it. -/
def power (n : Nat) : Float := powerLoop (n + 1) n 10 1

/-- The nearest integer to a double, a half going away from zero, as a double. -/
def roundHalfAway (x : Float) : Float :=
  match Binary.ofFloat? x with
  | some b => if b.isWhole then x else Float.ofInt b.roundHalfAway
  | none => x

/-- The magnitude as a double.  The places after the point are added as a
quotient, and the sum is rounded at the last place: close to the number, but not
always the nearest double. -/
def magnitude (n scale : Nat) : Float :=
  if scale = 0 then Float.ofNat n
  else
    let unit := Nat.pow 10 scale
    let tail := Float.ofNat (n % unit) / Float.ofNat unit
    if isEqual tail 0 then Float.ofNat (n / unit)
    else
      let sum := Float.ofNat (n / unit) + tail
      let p := power scale
      roundHalfAway (sum * p) / p

/-- The number as a double. -/
def toFloat (d : Fixed) : Float :=
  let x := magnitude d.coefficient.natAbs d.scale
  if d.coefficient < 0 then -x else x

/-- The short fixed-point form of a double: the decimal it prints as, when that
has at most 15 significant digits and converts back to the same double. -/
def ofFloat? (x : Float) : Option Fixed :=
  match Binary.ofFloat? x with
  | none => none
  | some b =>
      let d := ofDecimal b.negative (shortest .up b)
      if d.coefficient.natAbs < shortBound ∧ isEqual d.toFloat x then some d else none

/-- The number with the fewest places dropped that fits, rounded half to even;
`none` when even the integer part is too large. -/
def fit? (d : Fixed) : Option Fixed :=
  (List.range (d.scale + 1)).findSome? fun dropped =>
    let n := roundDiv .even d.coefficient.natAbs (Nat.pow 10 dropped)
    if d.scale - dropped ≤ maxScale ∧ n < bound then
      some ⟨withSign d.coefficient n, d.scale - dropped⟩
    else none

/-- The coefficient over `10 ^ scale` for a scale that is no smaller. -/
def coefficientAt (d : Fixed) (scale : Nat) : Int := d.coefficient * Nat.pow 10 (scale - d.scale)

/-- The sum of two decimals. -/
def add? (a b : Fixed) : Option Fixed :=
  let scale := max a.scale b.scale
  fit? ⟨a.coefficientAt scale + b.coefficientAt scale, scale⟩

/-- The difference of two decimals. -/
def sub? (a b : Fixed) : Option Fixed := a.add? ⟨-b.coefficient, b.scale⟩

/-- The product of two decimals. -/
def mul? (a b : Fixed) : Option Fixed :=
  fit? ⟨a.coefficient * b.coefficient, a.scale + b.scale⟩

/-- The number as an integer, when it is one. -/
def toInt? (d : Fixed) : Option Int :=
  let unit : Int := Nat.pow 10 d.scale
  if d.coefficient % unit = 0 then some (d.coefficient / unit) else none

/-- A decimal that fits stays within the bounds. -/
theorem bounds_of_fit?_eq_some {d r : Fixed} (h : d.fit? = some r) :
    r.scale ≤ maxScale ∧ r.coefficient.natAbs < bound := by
  obtain ⟨dropped, -, hr⟩ := List.exists_of_findSome?_eq_some h
  dsimp only at hr
  split at hr
  · next hfit =>
      obtain rfl := Option.some.inj hr
      refine ⟨hfit.1, ?_⟩
      have hn := hfit.2
      simp only [withSign]
      split <;> omega
  · cases hr

end Fixed

end DataRules.Number
