import DataRules.Double.Binary
import DataRules.Double.Decimal
import DataRules.Text.Blank

set_option autoImplicit false

/-!
# Double: reading numerals

A text counts as a number through the longest numeral at its start, once the
blanks around it are gone: `"12px"` reads as twelve.  A numeral is an optional
sign, digits with at most one point among them, and a power of ten that counts
only when it has digits of its own.  This module scans a numeral off a list of
characters and gives the double that a text reads as.
-/

namespace DataRules.Double

/-- A numeral as it is written: `± whole . fraction · 10 ^ power`. -/
structure Numeral where
  negative : Bool
  whole : List Char
  fraction : List Char
  power : Int
  deriving DecidableEq, Repr

namespace Numeral

/-- The magnitude of the numeral. -/
def decimal (n : Numeral) : Decimal :=
  ⟨Nat.ofDigitChars 10 (n.whole ++ n.fraction) 0, n.power - n.fraction.length⟩

/-- The nearest double. -/
def toFloat (n : Numeral) : Float := n.decimal.toSignedFloat n.negative

/-- An optional sign: whether it is a minus, and what follows. -/
def takeSign : List Char → Bool × List Char
  | '-' :: cs => (true, cs)
  | '+' :: cs => (false, cs)
  | cs => (false, cs)

/-- The digits at the start, and what follows. -/
def takeDigits (cs : List Char) : List Char × List Char :=
  (cs.takeWhile Char.isDigit, cs.dropWhile Char.isDigit)

/-- The digits after a point, and what follows; a point may have no digits. -/
def takeFraction : List Char → List Char × List Char
  | '.' :: cs => takeDigits cs
  | cs => ([], cs)

/-- A power of ten, and what follows.  Without digits it does not count, and
nothing of it is taken. -/
def takePower : List Char → Int × List Char
  | [] => (0, [])
  | c :: cs =>
      if c = 'e' ∨ c = 'E' then
        let (negative, body) := takeSign cs
        let (digits, rest) := takeDigits body
        if digits = [] then (0, c :: cs)
        else
          let n := Nat.ofDigitChars 10 digits 0
          (if negative then -(n : Int) else n, rest)
      else (0, c :: cs)

/-- The longest numeral at the start, and what follows it. -/
def scan (cs : List Char) : Option (Numeral × List Char) :=
  let (negative, body) := takeSign cs
  let (whole, afterWhole) := takeDigits body
  let (fraction, afterFraction) := takeFraction afterWhole
  if whole = [] ∧ fraction = [] then none
  else
    let (power, rest) := takePower afterFraction
    some (⟨negative, whole, fraction, power⟩, rest)

theorem takeDigits_append (cs : List Char) : (takeDigits cs).1 ++ (takeDigits cs).2 = cs :=
  List.takeWhile_append_dropWhile

theorem isDigit_of_mem_takeDigits {cs : List Char} {c : Char} (h : c ∈ (takeDigits cs).1) :
    c.isDigit = true :=
  List.all_eq_true.mp List.all_takeWhile c h

end Numeral

/-- The double that trimmed characters read as: nothing is zero, a signed
`Infinity` is infinite, a numeral at the start is its value, and all else is no
number. -/
def ofTrimmed (cs : List Char) : Float :=
  if cs = [] then 0
  else
    let (negative, body) := Numeral.takeSign cs
    if "Infinity".toList.isPrefixOf body then if negative then -infinity else infinity
    else
      match Numeral.scan cs with
      | some (numeral, _) => numeral.toFloat
      | none => nan

/-- The double that a text reads as. -/
def ofText (s : String) : Float := ofTrimmed (Text.trim s.toList)

end DataRules.Double
