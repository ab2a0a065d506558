import DataRules.Double.Shortest

set_option autoImplicit false

/-!
# Double: how a double is written

Three texts of a double are in use: the plain text that operators such as `cat`
see, the number of a JSON document, and a scientific notation.  They share the
shortest digits and the words for what is not finite, and differ in a handful of
decisions, which are the fields of `Layout`.  A text is a list of characters.
-/

namespace DataRules.Double

/-- The decisions that make up a number format. -/
structure Layout where
  /-- the powers of ten of the leading digit that are written without an exponent -/
  positional : Int → Bool
  /-- what follows a whole number in positional notation -/
  wholeEnd : List Char
  /-- what stands before an exponent that is not negative -/
  plus : List Char
  /-- a zero with a minus sign shows it -/
  showsNegativeZero : Bool
  /-- which of two equally near decimals is taken -/
  tie : Tie

namespace Layout

/-- Positional from `1e-6` up to below `1e21`, whole numbers without a point,
both signs of an exponent written, and no minus sign on zero. -/
def plain : Layout where
  positional k := -6 ≤ k && k ≤ 20
  wholeEnd := []
  plus := ['+']
  showsNegativeZero := false
  tie := .up

/-- Positional from `1e-5` up to below `1e16`, always with a digit after the
point, and both signs of an exponent written. -/
def json : Layout where
  positional k := -5 ≤ k && k ≤ 15
  wholeEnd := ['.', '0']
  plus := ['+']
  showsNegativeZero := true
  tie := .even

/-- One digit before the point and an exponent in every number. -/
def scientific : Layout where
  positional _ := false
  wholeEnd := []
  plus := []
  showsNegativeZero := true
  tie := .up

/-- The digits with a point after the one of power zero. -/
def positionalChars (layout : Layout) (d : Decimal) : List Char :=
  let k := d.leading
  if k < 0 then '0' :: '.' :: (List.replicate (-k - 1).toNat '0' ++ d.chars)
  else if 0 ≤ d.exponent then d.chars ++ List.replicate d.exponent.toNat '0' ++ layout.wholeEnd
  else d.chars.take (k + 1).toNat ++ '.' :: d.chars.drop (k + 1).toNat

/-- The digits with a point after the first, then the power of the first. -/
def exponentChars (layout : Layout) (d : Decimal) : List Char :=
  let digits :=
    match d.chars with
    | [] => []
    | [c] => [c]
    | c :: cs => c :: '.' :: cs
  let k := d.leading
  let sign := if k < 0 then ['-'] else layout.plus
  digits ++ 'e' :: (sign ++ Nat.toDigits 10 k.natAbs)

/-- The text of a decimal. -/
def decimalChars (layout : Layout) (d : Decimal) : List Char :=
  if layout.positional d.leading then layout.positionalChars d else layout.exponentChars d

/-- The text of a double. -/
def chars (layout : Layout) (x : Float) : List Char :=
  match Binary.ofFloat? x with
  | some b =>
      let digits := layout.decimalChars (shortest layout.tie b)
      if b.negative && (layout.showsNegativeZero || b.mantissa ≠ 0) then '-' :: digits
      else digits
  | none =>
      if x.isNaN then "NaN".toList
      else if x < 0 then "-Infinity".toList
      else "Infinity".toList

/-- The text of a double, as a string. -/
def text (layout : Layout) (x : Float) : String := String.ofList (layout.chars x)

end Layout

/-- The decimal digits of an integer, after a minus sign when it is negative. -/
def intChars (n : Int) : List Char :=
  if n < 0 then '-' :: Nat.toDigits 10 n.natAbs else Nat.toDigits 10 n.natAbs

end DataRules.Double
