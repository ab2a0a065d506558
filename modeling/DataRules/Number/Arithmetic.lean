import DataRules.Number.Basic
import DataRules.Number.Fixed

set_option autoImplicit false

/-!
# Number: arithmetic

The five operations work on doubles and give a number.  Sums, differences and
products of short decimals are taken in fixed-point decimals, so they do not
show the rounding of binary fractions; everything else is double arithmetic and
may be infinite or NaN.
-/

namespace DataRules

/-- The number a fixed-point decimal stands for. -/
def Number.ofFixed (d : Number.Fixed) : Number :=
  (d.toInt?.bind Number.ofInt?).getD (Number.ofFloat d.toFloat)

/-- An arithmetic operation on two numbers. -/
inductive Arithmetic where
  | add
  | subtract
  | multiply
  | divide
  | remainder
  deriving DecidableEq, Repr

namespace Arithmetic

open DataRules.Double DataRules.Number

/-- The operation on doubles. -/
def onFloats : Arithmetic → Float → Float → Float
  | .add, x, y => x + y
  | .subtract, x, y => x - y
  | .multiply, x, y => x * y
  | .divide, x, y => x / y
  | .remainder, x, y => Double.remainder x y

/-- The operation on fixed-point decimals; division has none. -/
def onFixed? : Arithmetic → Fixed → Fixed → Option Fixed
  | .add, a, b => a.add? b
  | .subtract, a, b => a.sub? b
  | .multiply, a, b => a.mul? b
  | .divide, _, _ => none
  | .remainder, _, _ => none

/-- The result on fixed-point decimals, when both operands are short. -/
def inFixed? (op : Arithmetic) (x y : Float) : Option Fixed := do
  let a ← Fixed.ofFloat? x
  let b ← Fixed.ofFloat? y
  op.onFixed? a b

/-- The result of the operation. -/
def apply (op : Arithmetic) (x y : Float) : Number :=
  match op.inFixed? x y with
  | some d => Number.ofFixed d
  | none => Number.ofFloat (op.onFloats x y)

end Arithmetic

end DataRules
