import DataRules.Double.Layout
import DataRules.Double.Numeral

set_option autoImplicit false

/-!
# Number: integers and doubles as one kind

A number is a 64-bit integer or a double.  The two are kept apart so that whole
results print without a point, but they are one kind for the language: an
integer and a double are compared, and computed with, as doubles.
-/

namespace DataRules

/-- A number of the language. -/
inductive Number where
  | int (n : Int64)
  | float (x : Float)
  deriving DecidableEq

namespace Number

open DataRules.Double

instance : Inhabited Number := ⟨.int 0⟩

/-- The number as a double. -/
def toFloat : Number → Float
  | .int n => Float.ofInt n.toInt
  | .float x => x

/-- The integer when it fits in 64 bits. -/
def ofInt? (i : Int) : Option Number :=
  if Int64.minValue.toInt ≤ i ∧ i ≤ Int64.maxValue.toInt then some (.int (Int64.ofInt i)) else none

/-- The number a double stands for: a whole double in the 64-bit range is an
integer, any other stays a double. -/
def ofFloat (x : Float) : Number :=
  ((whole? x).bind ofInt?).getD (.float x)

/-- The same number, written the same way: an integer and a double always
differ, NaN differs from itself, and the two zeros are the same. -/
def same : Number → Number → Bool
  | .int m, .int n => m == n
  | .float x, .float y => isEqual x y
  | _, _ => false

/-- Equality without conversion: two integers exactly, and any other two as
doubles. -/
def equals : Number → Number → Bool
  | .int m, .int n => m == n
  | a, b => isEqual a.toFloat b.toFloat

/-- The number is neither a zero nor NaN. -/
def isTruthy : Number → Bool
  | .int n => n != 0
  | .float x => !x.isNaN && !isEqual x 0

/-- The plain text of the number. -/
def text : Number → String
  | .int n => String.ofList (intChars n.toInt)
  | .float x => Layout.plain.text x

end Number

end DataRules
